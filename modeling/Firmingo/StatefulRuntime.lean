/-
The FMS2 runtime: `experiments/managed_sketch/stateful_runtime.h` and
`stateful_runtime.cpp`.

`Runtime` publishes one generation after the other, `Replacement` drives the exchange with
core 1 parked, and core 1 ticks. The functions of core 0 are as core 0 computes them; core
1's `tick` is cut at every access of a shared variable and at every call of an entry and
return from it, so that it can be interleaved with them.

A generation number is a 32-bit word in the source. `can_start` refuses to count past the
largest, so here it is a natural number.
-/
import Firmingo.Install
import Firmingo.StatefulImage

set_option autoImplicit false

open Octets

namespace Firmingo.Managed.Stateful

/-! ## The runtime -/

/-- `Runtime`, without `observed_`, which is core 1's. -/
structure Runtime where
  contract : Contract
  generation : Generation
  image : ImageInfo := {}
  published : ℕ := 0
  returned : ℕ := 0
  boot_attempted : Bool := false
  deriving DecidableEq, Repr

namespace Runtime

/-- `can_start`. -/
def can_start (r : Runtime) : Bool := r.generation.last_generation ≠ 2 ^ 32 - 1

/-- `active_generation`. -/
def active_generation (r : Runtime) : ℕ := r.published

/-- `loop_returned`. -/
def loop_returned (r : Runtime) : Bool := r.published ≠ 0 && r.returned = r.published

/-- `start_exact`. -/
def start_exact (r : Runtime) (image : Option (List Byte)) (bytes : ℕ) (overlaps : Bool) :
    Except Error ImageInfo × Runtime :=
  if !r.can_start then (.error .bad_generation, r)
  else
    let next := r.generation.last_generation + 1
    match r.generation.begin image bytes r.contract next overlaps with
    | (.error e, generation) => (.error e, { r with generation := generation })
    | (.ok info, generation) => (.ok info, { r with
        generation := generation
        image := info
        returned := 0
        published := next })

/-- `start_from_slot`. The length is read from the header and bounded before anything else
is read. -/
def start_from_slot (r : Runtime) (slot : Option (List Byte)) (mapped_bytes : ℕ) (overlaps : Bool) :
    Except Error ImageInfo × Runtime :=
  match slot with
  | none => (.error .short_header, r)
  | some slot =>
    let bytes := word32_le (slot.drop 52)
    if mapped_bytes < kCodeOffset then (.error .short_header, r)
    else if bytes < kCodeOffset || bytes > mapped_bytes || bytes > r.contract.maximum_capsule_bytes
        || bytes > kMaximumCapsuleBytes then (.error .bad_image_size, r)
    else r.start_exact (some (slot.take bytes)) bytes overlaps

/-- `boot_from_slot`. -/
def boot_from_slot (r : Runtime) (slot : Option (List Byte)) (mapped_bytes : ℕ) (overlaps : Bool) :
    Except Error ImageInfo × Runtime :=
  if r.boot_attempted then (.error .bad_generation, r)
  else { r with boot_attempted := true }.start_from_slot slot mapped_bytes overlaps

/-- `stop_quiescent`. -/
def stop_quiescent (r : Runtime) : Runtime :=
  { r with
    published := 0
    returned := 0
    generation := { r.generation with active := false }
    image := {} }

end Runtime

/-! ## Core 1 -/

/-- Where core 1 is in `tick`, with the generation it read and the entry it is in. -/
inductive Tick
  | outside
  | loaded (current : ℕ)
  | in_setup (current : ℕ)
  | before_loop (current : ℕ)
  | in_loop (current address : ℕ)
  | after_loop (current : ℕ)
  deriving DecidableEq, Repr

/-- `observed_`, and where core 1 is. -/
structure Core1 where
  observed : ℕ := 0
  tick : Tick := .outside
  deriving DecidableEq, Repr

/-- A call of an entry, or a return from the loop entry, for a generation. -/
inductive Invocation
  | setup (generation address : ℕ)
  | loop (generation address : ℕ)
  | loop_return (generation address : ℕ)
  deriving DecidableEq, Repr

/-- The next step of `tick`, which is called again after it returns. -/
def Core1.step (r : Runtime) (c : Core1) : Runtime × Core1 × Option Invocation :=
  match c.tick with
  | .outside =>
    if r.published = 0 then (r, { c with observed := 0 }, none)
    else (r, { c with tick := .loaded r.published }, none)
  | .loaded current =>
    if c.observed ≠ current then
      (r, ⟨current, .in_setup current⟩, some (.setup current r.image.setup_address))
    else (r, { c with tick := .before_loop current }, none)
  | .in_setup current => (r, { c with tick := .before_loop current }, none)
  | .before_loop current =>
    (r, { c with tick := .in_loop current r.image.loop_address },
      some (.loop current r.image.loop_address))
  | .in_loop current address =>
    (r, { c with tick := .after_loop current }, some (.loop_return current address))
  | .after_loop current => ({ r with returned := current }, { c with tick := .outside }, none)

/-! ## The replacement -/

/-- What the runtime is told to run. -/
structure Started where
  generation : ℕ
  image : ImageInfo
  deriving DecidableEq, Repr

/-- `ReplacementStatus`. -/
inductive ReplacementStatus
  | idle
  | waiting
  | complete
  | denied
  | timeout
  | failed
  deriving DecidableEq, Repr

/-- `ReplacementReport`. -/
structure ReplacementReport where
  status : ReplacementStatus
  install : InstallResult
  image_error : Option Error
  slot_touched : Bool
  deriving DecidableEq, Repr

/-- `Replacement`, without the objects it refers to. -/
structure Replacement where
  snapshot : List Byte := List.replicate kMaximumCapsuleBytes 0
  bytes : ℕ := 0
  started_at : UInt32 := 0
  deriving DecidableEq, Repr

namespace Replacement

def pause_timeout_ms : UInt32 := 1000

def active (p : Replacement) : Bool := p.bytes ≠ 0

/-- What the snapshot holds of the capsule. -/
def capsule (p : Replacement) : List Byte := p.snapshot.take p.bytes

/-- `validate_image` of the first bytes of a buffer. -/
def accepts (contract : Contract) (buffer : List Byte) (bytes : ℕ) : Bool :=
  (validate_image (some (buffer.take bytes)) bytes contract).isOk

/-- `request`. The image is never null here: its caller passes an array. -/
def request (p : Replacement) (r : Runtime) (board : Board) (image : List Byte) (bytes : ℕ)
    (physically_armed : Bool) (now : UInt32) : Bool × Replacement × List (Hardware Started) :=
  let snapshot := copy_at p.snapshot 0 (image.take bytes)
  let cleared := { p with snapshot := List.replicate kMaximumCapsuleBytes 0 }
  if p.active || !physically_armed || !r.boot_attempted || !r.can_start
      || bytes > kMaximumCapsuleBytes || !accepts r.contract image bytes then (false, p, [])
  else if !accepts r.contract snapshot bytes then (false, cleared, [])
  else if !board.request then (false, cleared, [.pause_request false])
  else (true, ⟨snapshot, bytes, now⟩, [.pause_request true])

/-- The part of `release` that is not the pause's. -/
def released (p : Replacement) : Replacement :=
  { p with snapshot := List.replicate kMaximumCapsuleBytes 0, bytes := 0 }

/-- Whether the rest of the sector is erased. -/
def erased_tail (slot : List Byte) (bytes : ℕ) : Bool :=
  (List.range (kProofSectorBytes - bytes)).all fun i => slot.getD (bytes + i) 0 = 0xff

/-- `install`. -/
def install (p : Replacement) (r : Runtime) (board : Board) :
    InstallReport × List (Hardware Started) :=
  if !board.flash_begin then (⟨.flash_begin_failed, false⟩, [.flash_begin false])
  else
    let (result, accesses) := write_slot board p.capsule
    let accesses := .flash_begin true :: accesses ++ [.flash_end]
    if result ≠ .ok then (⟨result, true⟩, accesses)
    else
      let accesses := accesses ++ [.slot_data board.installed]
      let slot := board.installed.getD []
      if !read_back board.installed p.capsule (accepts r.contract slot p.bytes)
          || !erased_tail slot p.bytes then (⟨.readback_failed, true⟩, accesses)
      else (⟨.ok, true⟩, accesses)

/-- The exchange, with core 1 parked: the old generation is stopped first, and no failure
resumes it. -/
def exchange (p : Replacement) (r : Runtime) (board : Board) (overlaps : Bool) :
    ReplacementReport × Runtime × List (Hardware Started) :=
  let stopped := r.stop_quiescent
  let (written, accesses) := p.install stopped board
  if written.result = .ok then
    match stopped.start_from_slot board.slot kProofSectorBytes overlaps with
    | (.ok info, started) => (⟨.complete, .ok, none, written.slot_touched⟩, started,
        .stop :: accesses ++ [.slot_data board.slot, .start ⟨started.published, info⟩])
    | (.error e, started) => (⟨.failed, .ok, some e, written.slot_touched⟩, started,
        .stop :: accesses ++ [.slot_data board.slot])
  else (⟨.failed, written.result, none, written.slot_touched⟩, stopped, .stop :: accesses)

/-- `poll`: the report, the replacement, the runtime, and what the hardware was asked. -/
def poll (p : Replacement) (r : Runtime) (board : Board) (overlaps : Bool) (now : UInt32)
    (physically_armed : Bool) :
    ReplacementReport × Replacement × Runtime × List (Hardware Started) :=
  if !p.active then (⟨.idle, .no_verified_capsule, none, false⟩, p, r, [])
  else if !physically_armed then
    (⟨.denied, .no_verified_capsule, none, false⟩, p.released, r, [.pause_release])
  else if !board.parked then
    if now - p.started_at < pause_timeout_ms then
      (⟨.waiting, .no_verified_capsule, none, false⟩, p, r, [.pause_parked false])
    else
      (⟨.timeout, .no_verified_capsule, none, false⟩, p.released, r,
        [.pause_parked false, .pause_release])
  else
    match validate_image (some p.capsule) p.bytes r.contract with
    | .error e => (⟨.failed, .invalid_image, some e, false⟩, p.released, r,
        [.pause_parked true, .pause_release])
    | .ok _ =>
      let (report, r, accesses) := p.exchange r board overlaps
      (report, p.released, r, .pause_parked true :: accesses ++ [.pause_release])

end Replacement

/-! ## Starting a generation -/

/-- A generation that was begun: its number is new, its image is valid, and its arena holds
the initialised data and zeros. -/
structure Generation.Begun (g : Generation) (image : Option (List Byte)) (size : ℕ)
    (contract : Contract) (generation : ℕ) (info : ImageInfo) (g' : Generation) : Prop where
  newer : g.last_generation < generation
  valid : validate_image image size contract = .ok info
  last : g'.last_generation = generation
  arena : ∃ window, g.arena.data = some window ∧ window.length = contract.state_capacity_bytes ∧
    g'.arena.data = some ((((image.getD []).drop info.data_load_offset).take info.data_bytes)
      ++ List.replicate (window.length
        - (((image.getD []).drop info.data_load_offset).take info.data_bytes).length) 0)

/-- A generation that does not begin leaves the old one as it was. -/
theorem Generation.begin_cases (g : Generation) (image : Option (List Byte)) (size : ℕ)
    (contract : Contract) (generation : ℕ) (overlaps : Bool) :
    (∃ e, g.begin image size contract generation overlaps = (.error e, g)) ∨
    ∃ info g', g.begin image size contract generation overlaps = (.ok info, g') ∧
      g.Begun image size contract generation info g' := by
  unfold Generation.begin
  split
  · exact .inl ⟨_, rfl⟩
  split
  · exact .inl ⟨_, rfl⟩
  next hnumber =>
  split
  · exact .inl ⟨_, rfl⟩
  next info hvalid =>
  split
  · exact .inl ⟨_, rfl⟩
  next window hwindow =>
  split
  · exact .inl ⟨_, rfl⟩
  next hroom =>
  split
  · exact .inl ⟨_, rfl⟩
  · simp only [Bool.or_eq_true, decide_eq_true_eq, not_or, not_le, ne_eq, not_not] at hnumber hroom
    exact .inr ⟨info, _, rfl, hnumber.2, hvalid, rfl, window, hwindow, hroom.1, rfl⟩

/-- A start: nothing has changed, or the next generation is published. -/
structure Runtime.StartedWith (r : Runtime) (info : ImageInfo) (r' : Runtime) : Prop where
  published : r'.published = r.generation.last_generation + 1
  last : r'.generation.last_generation = r'.published
  image : r'.image = info
  returned : r'.returned = 0
  contract : r'.contract = r.contract
  boot_attempted : r'.boot_attempted = r.boot_attempted

/-- A start from the slot that fails leaves the runtime as it was. -/
theorem Runtime.start_from_slot_cases (r : Runtime) (slot : Option (List Byte)) (mapped_bytes : ℕ)
    (overlaps : Bool) :
    (∃ e, r.start_from_slot slot mapped_bytes overlaps = (.error e, r)) ∨
    ∃ info r', r.start_from_slot slot mapped_bytes overlaps = (.ok info, r') ∧ r.StartedWith info r' := by
  unfold Runtime.start_from_slot
  cases slot with
  | none => exact .inl ⟨_, rfl⟩
  | some slot =>
    simp only
    split
    · exact .inl ⟨_, rfl⟩
    split
    · exact .inl ⟨_, rfl⟩
    unfold Runtime.start_exact
    split
    · exact .inl ⟨_, rfl⟩
    simp only
    rcases r.generation.begin_cases (some (slot.take (word32_le (slot.drop 52))))
        (word32_le (slot.drop 52)) r.contract (r.generation.last_generation + 1) overlaps with
      ⟨e, he⟩ | ⟨info, g', hg, hbegun⟩
    · rw [he]
      exact .inl ⟨e, rfl⟩
    · rw [hg]
      exact .inr ⟨info, _, rfl, rfl, hbegun.last, rfl, rfl, rfl, rfl⟩

/-! ## What a replacement does -/

namespace Replacement

/-- The installer, for a snapshot of the capsule. -/
theorem install_cases (p : Replacement) (r : Runtime) (board : Board) :
    (p.install r board = (⟨.flash_begin_failed, false⟩, [.flash_begin false])) ∨
    ∃ whole writes rereads, Writes p.capsule whole writes ∧
      (p.install r board).2 = .flash_begin true :: writes ++ [.flash_end] ++ rereads ∧
      ((p.install r board).1.result ≠ .ok ∧ Rereads p.capsule whole rereads ∧
          (∀ started, .start started ∉ rereads) ∨
        (p.install r board).1.result = .ok ∧ whole = true ∧ ∃ written,
          written.take p.capsule.length = p.capsule ∧ rereads = [.slot_data (some written)]) := by
  unfold install
  cases hbegin : board.flash_begin with
  | false => exact .inl rfl
  | true =>
    refine .inr ?_
    have hwrites := write_slot_writes (ι := Started) board p.capsule
    simp only [Bool.not_true, Bool.false_eq_true, if_false]
    generalize write_slot (ι := Started) board p.capsule = slot at hwrites ⊢
    obtain ⟨result, accesses⟩ := slot
    by_cases hok : result = .ok
    · subst hok
      simp only [ne_eq, not_true_eq_false, if_false]
      split
      · exact ⟨true, accesses, [.slot_data board.installed], hwrites, rfl,
          .inl ⟨by simp, .unlike _, by simp⟩⟩
      · next hread =>
        cases hinstalled : board.installed with
        | none =>
          rw [hinstalled] at hread
          simp [read_back] at hread
        | some written =>
          rw [hinstalled] at hread
          simp only [read_back, Bool.or_eq_true, Bool.not_eq_true', Bool.and_eq_false_iff,
            decide_eq_false_iff_not, not_or, not_not] at hread
          exact ⟨true, accesses, [.slot_data (some written)], hwrites, rfl,
            .inr ⟨rfl, rfl, written, hread.1.1, rfl⟩⟩
    · simp only [ne_eq, hok, not_false_iff, if_true]
      refine ⟨false, accesses, [], ?_, by simp, .inl ⟨trivial, .failed, by simp⟩⟩
      simpa [hok] using hwrites

/-- The end of an exchange: no generation is published, or the next one is. -/
structure Exchanged (r : Runtime) (report : ReplacementReport) (r' : Runtime)
    (rereads : List (Hardware Started)) : Prop where
  contract : r'.contract = r.contract
  boot_attempted : r'.boot_attempted = r.boot_attempted
  returned : r'.returned = 0
  ended : report.status = .failed ∧ r'.published = 0 ∧
      r'.generation.last_generation = r.generation.last_generation ∧
      (∀ started, .start started ∉ rereads) ∨
    report.status = .complete ∧ r'.published = r.generation.last_generation + 1 ∧
      r'.generation.last_generation = r'.published ∧ .start ⟨r'.published, r'.image⟩ ∈ rereads

/-- The exchange: the flash does not open, or it is written and read again. -/
theorem exchange_cases (p : Replacement) (r : Runtime) (board : Board) (overlaps : Bool) :
    ((p.exchange r board overlaps).2.2 = [.stop, .flash_begin false] ∧
      Exchanged r (p.exchange r board overlaps).1 (p.exchange r board overlaps).2.1 []) ∨
    ∃ whole writes rereads, Writes p.capsule whole writes ∧ Rereads p.capsule whole rereads ∧
      (p.exchange r board overlaps).2.2
        = [.stop, .flash_begin true] ++ writes ++ [.flash_end] ++ rereads ∧
      Exchanged r (p.exchange r board overlaps).1 (p.exchange r board overlaps).2.1 rereads := by
  have hinstall := p.install_cases r.stop_quiescent board
  have hstart := r.stop_quiescent.start_from_slot_cases board.slot kProofSectorBytes overlaps
  simp only [exchange]
  generalize p.install r.stop_quiescent board = installed at hinstall ⊢
  obtain ⟨report, accesses⟩ := installed
  have hstopped : ∀ (report : ReplacementReport) (rereads : List (Hardware Started)),
      report.status = .failed → (∀ started, .start started ∉ rereads) →
      Exchanged r report r.stop_quiescent rereads :=
    fun report rereads hs hno => ⟨rfl, rfl, rfl, .inl ⟨hs, rfl, rfl, hno⟩⟩
  rcases hinstall with heq | ⟨whole, writes, rereads, hwrites, rfl, hcases⟩
  · cases heq
    exact .inl ⟨rfl, hstopped _ [] rfl (by simp)⟩
  refine .inr ?_
  rcases hcases with ⟨hbad, hrereads, hno⟩ | ⟨hok, rfl, written, hsame, rfl⟩
  · simp only [hbad, if_false]
    exact ⟨whole, writes, rereads, hwrites, hrereads, by simp, hstopped _ _ rfl hno⟩
  · simp only at hok
    simp only [hok, if_true]
    rcases hstart with ⟨e, he⟩ | ⟨info, r', hr', hwith⟩
    · rw [he]
      exact ⟨true, writes, _, hwrites, .unstarted written board.slot hsame, by simp,
        hstopped _ _ rfl (by simp)⟩
    · rw [hr']
      refine ⟨true, writes, _, hwrites, .started written board.slot ⟨r'.published, info⟩ hsame,
        by simp, hwith.contract, hwith.boot_attempted, hwith.returned, .inr ⟨rfl, ?_, hwith.last, ?_⟩⟩
      · rw [hwith.published]
        rfl
      · rw [hwith.image]
        simp

/-- A request: refused without a snapshot, or granted with a snapshot of a valid image. -/
theorem request_cases {p : Replacement} (hinactive : p.bytes = 0) (r : Runtime) (board : Board)
    (image : List Byte) (bytes : ℕ) (hroom : bytes ≤ image.length) (now : UInt32) :
    (∃ p' accesses, p.request r board image bytes true now = (false, p', accesses) ∧ p'.bytes = 0 ∧
      (accesses = [] ∨ accesses = [.pause_request false])) ∨
    ∃ p', p.request r board image bytes true now = (true, p', [.pause_request true]) ∧
      p'.bytes = bytes ∧ p'.capsule = image.take bytes ∧
      (validate_image (some (image.take bytes)) bytes r.contract).isOk = true := by
  unfold request
  simp only
  split
  · exact .inl ⟨p, [], rfl, hinactive, .inl rfl⟩
  next haccepts =>
  split
  · exact .inl ⟨_, [], rfl, hinactive, .inl rfl⟩
  split
  · exact .inl ⟨_, _, rfl, hinactive, .inr rfl⟩
  · simp only [Bool.or_eq_true, not_or, Bool.not_eq_true', Bool.not_eq_false] at haccepts
    refine .inr ⟨_, rfl, rfl, ?_, haccepts.2⟩
    -- the snapshot starts with the copy
    have hlen : (image.take bytes).length = bytes := by
      rw [List.length_take]
      exact min_eq_left hroom
    simp only [capsule, copy_at, List.take_zero, List.nil_append]
    rw [List.take_append_of_le_length hlen.ge, List.take_of_length_le hlen.le]

/-- How a poll of an active replacement ends, for a valid snapshot. -/
inductive Driven (armed parked : Bool) (p : Replacement) (r : Runtime) (report : ReplacementReport) :
    Replacement → Runtime → List (Hardware Started) → Prop
  | waiting (status : report.status = .waiting) (accesses : List (Hardware Started))
      (only : ∀ x ∈ accesses, is_pause x = true) : Driven armed parked p r report p r accesses
  | refused (status : report.status = .denied ∨ report.status = .timeout)
      (accesses : List (Hardware Started)) (only : ∀ x ∈ accesses, is_pause x = true) :
      Driven armed parked p r report p.released r accesses
  | unwritten (arm : armed = true) (park : parked = true) (r' : Runtime)
      (exchanged : Exchanged r report r' []) :
      Driven armed parked p r report p.released r'
        [.pause_parked true, .stop, .flash_begin false, .pause_release]
  | written (arm : armed = true) (park : parked = true) (r' : Runtime) (whole : Bool)
      (writes rereads : List (Hardware Started)) (hwrites : Writes p.capsule whole writes)
      (hrereads : Rereads p.capsule whole rereads) (exchanged : Exchanged r report r' rereads) :
      Driven armed parked p r report p.released r' ([.pause_parked true, .stop, .flash_begin true]
        ++ writes ++ [.flash_end] ++ rereads ++ [.pause_release])

/-- A poll of an active replacement waits, gives up, or goes through with the exchange. -/
theorem poll_driven {p : Replacement} {r : Runtime} (hactive : p.bytes ≠ 0)
    (hvalid : (validate_image (some p.capsule) p.bytes r.contract).isOk = true) (board : Board)
    (overlaps : Bool) (now : UInt32) (armed : Bool) :
    Driven armed board.parked p r (p.poll r board overlaps now armed).1
      (p.poll r board overlaps now armed).2.1 (p.poll r board overlaps now armed).2.2.1
      (p.poll r board overlaps now armed).2.2.2 := by
  have hyes : p.active = true := by simp [active, hactive]
  simp only [poll, hyes, Bool.not_true, Bool.false_eq_true, if_false]
  cases armed with
  | false => exact .refused (.inl rfl) _ (by simp [is_pause])
  | true =>
    simp only [Bool.not_true, Bool.false_eq_true, if_false]
    cases hparked : board.parked with
    | false =>
      simp only [Bool.not_false, if_true]
      split
      · exact .waiting rfl _ (by simp [is_pause])
      · exact .refused (.inr rfl) _ (by simp [is_pause])
    | true =>
      simp only [Bool.not_true, Bool.false_eq_true, if_false]
      cases hchecked : validate_image (some p.capsule) p.bytes r.contract with
      | error e =>
        rw [hchecked] at hvalid
        cases hvalid
      | ok info =>
        simp only
        have hexchange := p.exchange_cases r board overlaps
        generalize p.exchange r board overlaps = exchanged at hexchange ⊢
        obtain ⟨report, r', accesses⟩ := exchanged
        rcases hexchange with ⟨rfl, hend⟩ | ⟨whole, writes, rereads, hwrites, hrereads, rfl, hend⟩
        · exact .unwritten rfl rfl r' hend
        · have hlist : (.pause_parked true :: ([.stop, .flash_begin true] ++ writes
              ++ [.flash_end] ++ rereads) ++ [.pause_release] : List (Hardware Started))
              = [.pause_parked true, .stop, .flash_begin true] ++ writes ++ [.flash_end]
                ++ rereads ++ [.pause_release] := by simp
          simp only at hend
          simp only [hlist]
          exact .written rfl rfl r' whole writes rereads hwrites hrereads hend

end Replacement

end Firmingo.Managed.Stateful
