/-
What reaches the flash through the FMS2 service, and what a confirmation means.

A run interleaves the calls of the service, the boot and core 1. A call of core 0 is one
step; core 1 makes its accesses and its calls of the sketch one at a time, and may be
anywhere in `tick` while core 0 works. The run keeps the log of the service, the age of the
stage at every request for a replacement, and the entries core 1 called.

A generation number is given out once, so what core 1 stored for an older generation is
never taken for the newer one.
-/
import Firmingo.StatefulUpload

set_option autoImplicit false

open Octets

namespace Firmingo.Managed.Stateful

/-! ## Runs -/

namespace Upload

/-- The service after a call, the error it answered, the age of the stage a replacement was
requested from, and the accesses it made. -/
def call (u : Upload) :
    ServiceOp → Upload × UploadError × Option UInt32 × List (Hardware Started)
  | .begin owner size digest armed =>
    let (answer, u) := { u with armed := armed }.begin owner size digest
    (u, answer.error, none, [])
  | .chunk owner id offset data =>
    let (answer, u) := u.chunk owner id offset data
    (u, answer.error, none, [])
  | .finish owner id =>
    let (answer, u) := u.finish owner id
    (u, answer.error, none, [])
  | .commit owner id armed =>
    let (answer, u) := { u with armed := armed }.commit owner id
    (u, answer.error, none, [])
  | .abort owner id =>
    let (answer, u) := u.abort owner id
    (u, answer.error, none, [])
  | .status id => (u, (u.status id).error, none, [])
  | .disconnect owner => (u.disconnect owner, .none, none, [])
  | .poll now armed board overlaps =>
    let (u, requested, accesses) := { u with armed := armed }.poll now board overlaps
    (u, .none, requested, accesses)

end Upload

/-- One step of a run. -/
inductive Op
  | call (op : ServiceOp)
  | boot (slot : Option (List Byte)) (mapped_bytes : ℕ) (overlaps : Bool)
  | core1

/-- The service, core 1, and what happened so far. -/
structure Run where
  service : Upload
  core1 : Core1 := {}
  log : List (Entry Started) := []
  ages : List UInt32 := []
  trace : List Invocation := []

namespace Run

def step (r : Run) : Op → Run
  | .call op =>
    let (service, error, requested, accesses) := r.service.call op
    { r with
      service := service
      log := r.log ++ [⟨op, error, service.last, accesses⟩]
      ages := r.ages ++ requested.toList }
  | .boot slot mapped_bytes overlaps =>
    { r with service := { r.service with
        runtime := (r.service.runtime.boot_from_slot slot mapped_bytes overlaps).2 } }
  | .core1 =>
    let (runtime, core1, invocation) := r.core1.step r.service.runtime
    { r with
      service := { r.service with runtime := runtime }
      core1 := core1
      trace := r.trace ++ invocation.toList }

/-- A run from power-up. The service and the runtime are each given a contract. -/
def after (contract resident : Contract) (arena : Arena) (ops : List Op) : Run :=
  Runs.run step { service := {
    contract := contract
    runtime := { contract := resident, generation := { arena := arena } } } } ops

end Run

/-- `validate_image` accepts the whole capsule, for the service and for the runtime. -/
def Accepted (contract resident : Contract) (capsule : List Byte) : Prop :=
  (validate_image (some capsule) capsule.length contract).isOk = true ∧
    (validate_image (some capsule) capsule.length resident).isOk = true

/-- What one more step of a run can do. -/
structure Exact (r : Run) (op : Op) : Prop where
  /-- A record is confirmed for the generation its own replacement started, which is still
  the published one, after its loop entry returned. -/
  confirmed : (r.step op).service.last.state = .boot_confirmed →
    r.service.last.state ≠ .boot_confirmed →
    ∃ x ∈ r.log, x.record.id = (r.step op).service.last.id ∧ ∃ started, .start started ∈ x.accesses ∧
      (r.step op).service.runtime.published = started.generation ∧
      .loop_return started.generation started.image.loop_address ∈ r.trace
  /-- The published generation changes at the boot and in a poll that works on the flash. -/
  kept : (r.step op).service.runtime.published ≠ r.service.runtime.published →
    (∃ slot mapped_bytes overlaps, op = .boot slot mapped_bytes overlaps) ∨
    ∃ e, (r.step op).log = r.log ++ [e] ∧ .stop ∈ e.accesses ∧ e.flashes
  /-- A commit that fails before the exchange changes nothing: there was no flash work for
  its ID. -/
  refused : r.service.last.state = .committing → (r.step op).service.last.state = .failed →
    (r.step op).service.last.error ≠ .install_failed →
    (r.step op).service.runtime.published = r.service.runtime.published ∧
      ∀ x ∈ (r.step op).log, x.record.id = (r.step op).service.last.id → ¬ x.flashes
  /-- After the old generation was stopped there is an installation or no generation. -/
  stopped : ∀ e, (r.step op).log = r.log ++ [e] → .stop ∈ e.accesses →
    (r.step op).service.last.state = .installed ∨
      (r.step op).service.last.state = .failed ∧ (r.step op).service.runtime.published = 0

/-! ## The two cores -/

/-- The generation core 1 works for. -/
def Tick.current : Tick → Option ℕ
  | .outside => none
  | .loaded current | .in_setup current | .before_loop current | .in_loop current _
  | .after_loop current => some current

def Invocation.generation : Invocation → ℕ
  | .setup generation _ | .loop generation _ | .loop_return generation _ => generation

/-- What core 1 does is for a generation that was given out, and what it stores is what
happened. -/
structure Cores (r : Runtime) (c : Core1) (trace : List Invocation) : Prop where
  published_le : r.published ≤ r.generation.last_generation
  tick_le : ∀ g, c.tick.current = some g → g ≤ r.generation.last_generation
  trace_le : ∀ x ∈ trace, x.generation ≤ r.generation.last_generation
  entered : ∀ g a, c.tick = .in_loop g a → g = r.published → r.published ≠ 0 → a = r.image.loop_address
  ended : ∀ g a, .loop_return g a ∈ trace → g = r.published → r.published ≠ 0 → a = r.image.loop_address
  after : ∀ g, c.tick = .after_loop g → ∃ a, .loop_return g a ∈ trace
  returned : r.returned ≠ 0 → ∃ a, .loop_return r.returned a ∈ trace

namespace Cores

variable {r r' : Runtime} {c : Core1} {trace : List Invocation}

/-- A stop or a start: nothing core 1 did is about what is published now. -/
theorem restarted (h : Cores r c trace) (hreturned : r'.returned = 0)
    (hlast : r.generation.last_generation ≤ r'.generation.last_generation)
    (hle : r'.published ≤ r'.generation.last_generation)
    (hpublished : r'.published = 0 ∨ r.generation.last_generation < r'.published) : Cores r' c trace := by
  refine ⟨hle, ?_, ?_, ?_, ?_, h.after, fun hne => absurd hreturned hne⟩
  · intro g hg
    exact (h.tick_le g hg).trans hlast
  · intro x hx
    exact (h.trace_le x hx).trans hlast
  · intro g a htick hg hne
    have hg_le := h.tick_le g (by rw [htick]; rfl)
    omega
  · intro g a hmem hg hne
    have hg_le : g ≤ r.generation.last_generation := h.trace_le _ hmem
    omega

/-- **A step of core 1 keeps the accounts of the two cores.** -/
theorem step (h : Cores r c trace) :
    Cores (c.step r).1 (c.step r).2.1 (trace ++ (c.step r).2.2.toList) := by
  have hold := h.tick_le
  have hmore : ∀ x : Invocation, x.generation ≤ r.generation.last_generation →
      ∀ y ∈ trace ++ [x], y.generation ≤ r.generation.last_generation := by
    intro x hx y hy
    rcases List.mem_append.mp hy with hy | hy
    · exact h.trace_le y hy
    · rw [List.mem_singleton.mp hy]
      exact hx
  have hsame : ∀ (x : Invocation) (g a : ℕ), (∀ g a, x ≠ .loop_return g a) →
      .loop_return g a ∈ trace ++ [x] → .loop_return g a ∈ trace := by
    intro x g a hx hmem
    rcases List.mem_append.mp hmem with hmem | hmem
    · exact hmem
    · exact absurd (List.mem_singleton.mp hmem).symm (hx g a)
  have hgrow : ∀ (x : Invocation) (g : ℕ), (∃ a, .loop_return g a ∈ trace) →
      ∃ a, .loop_return g a ∈ trace ++ [x] := by
    rintro x g ⟨a, ha⟩
    exact ⟨a, List.mem_append_left _ ha⟩
  unfold Core1.step
  cases htick : c.tick with
  | outside =>
    simp only
    split
    · simp only [Option.toList_none, List.append_nil]
      refine ⟨h.published_le, ?_, h.trace_le, ?_, h.ended, ?_, h.returned⟩
      · rw [← htick]; exact h.tick_le
      · rw [← htick]; exact h.entered
      · rw [← htick]; exact h.after
    · simp only [Option.toList_none, List.append_nil]
      refine ⟨h.published_le, ?_, h.trace_le, by simp, h.ended, by simp, h.returned⟩
      rintro g hg
      cases hg
      exact h.published_le
  | loaded current =>
    have hle := hold current (by rw [htick]; rfl)
    simp only
    split
    · simp only [Option.toList_some]
      refine ⟨h.published_le, ?_, hmore _ hle, by simp, ?_, by simp, fun hne => hgrow _ _ (h.returned hne)⟩
      · rintro g hg
        cases hg
        exact hle
      · intro g a hmem
        exact h.ended g a (hsame _ g a (by simp) hmem)
    · simp only [Option.toList_none, List.append_nil]
      refine ⟨h.published_le, ?_, h.trace_le, by simp, h.ended, by simp, h.returned⟩
      rintro g hg
      cases hg
      exact hle
  | in_setup current =>
    have hle := hold current (by rw [htick]; rfl)
    simp only [Option.toList_none, List.append_nil]
    refine ⟨h.published_le, ?_, h.trace_le, by simp, h.ended, by simp, h.returned⟩
    rintro g hg
    cases hg
    exact hle
  | before_loop current =>
    have hle := hold current (by rw [htick]; rfl)
    simp only [Option.toList_some]
    refine ⟨h.published_le, ?_, hmore _ hle, ?_, ?_, by simp, fun hne => hgrow _ _ (h.returned hne)⟩
    · rintro g hg
      cases hg
      exact hle
    · -- the address is read from the published image
      intro g a hin _ _
      cases hin
      rfl
    · intro g a hmem
      exact h.ended g a (hsame _ g a (by simp) hmem)
  | in_loop current address =>
    have hle := hold current (by rw [htick]; rfl)
    simp only [Option.toList_some]
    refine ⟨h.published_le, ?_, hmore _ hle, by simp, ?_, ?_, fun hne => hgrow _ _ (h.returned hne)⟩
    · rintro g hg
      cases hg
      exact hle
    · intro g a hmem
      rcases List.mem_append.mp hmem with hmem | hmem
      · exact h.ended g a hmem
      · cases List.mem_singleton.mp hmem
        exact h.entered current address htick
    · intro g hafter
      cases hafter
      exact ⟨address, by simp⟩
  | after_loop current =>
    simp only [Option.toList_none, List.append_nil]
    refine ⟨h.published_le, by simp [Tick.current], h.trace_le, by simp, h.ended, by simp, ?_⟩
    intro _
    exact h.after current htick

end Cores

/-! ## The invariant -/

/-- The record is installed for the generation its own poll started. -/
def Installed (u : Upload) (log : List (Entry Started)) : Prop :=
  u.installed_generation ≤ u.runtime.generation.last_generation ∧
  ∃ x ∈ log, x.record.id = u.last.id ∧ ∃ info, .start ⟨u.installed_generation, info⟩ ∈ x.accesses ∧
    (u.runtime.published = u.installed_generation → u.runtime.published ≠ 0 → u.runtime.image = info)

structure Logged (contract resident : Contract) (r : Run) : Prop where
  contract_eq : r.service.contract = contract
  resident_eq : r.service.runtime.contract = resident
  phase : r.service.Phase (chunks r.service.last.id r.log)
  recorded : r.service.account.Recorded (Accepted contract resident) r.log
  ages : ∀ age ∈ r.ages, age < staging_timeout_ms
  cores : Cores r.service.runtime r.core1 r.trace
  installed : r.service.last.state = .installed → Installed r.service r.log

namespace Logged

variable {contract resident : Contract} {r : Run}

/-- What the session's calls leave alone: the runtime, and a record that is installed. -/
structure Called (u u' : Upload) : Prop where
  contract : u'.contract = u.contract
  runtime : u'.runtime = u.runtime
  settled : u'.last = u.last ∧ u'.installed_generation = u.installed_generation ∨
    u'.last.state ≠ .installed ∧ u'.last.state ≠ .boot_confirmed ∧
      (u'.last.state = .failed → u.last.state = .accepted)

variable {u' : Upload}

/-- A call that is not a poll. -/
theorem called {e : Entry Started} {bytes : List Byte} (h : Logged contract resident r)
    (hcalled : Called r.service u') (hphase : u'.Phase bytes)
    (hrecorded : u'.account.Recorded (Accepted contract resident) (r.log ++ [e]) ∧
      chunks u'.last.id (r.log ++ [e]) = bytes) :
    Logged contract resident { r with service := u', log := r.log ++ [e] } := by
  refine ⟨hcalled.contract.trans h.contract_eq, ?_, ?_, hrecorded.1, h.ages, ?_, ?_⟩
  · change u'.runtime.contract = resident
    rw [hcalled.runtime]
    exact h.resident_eq
  · change u'.Phase (chunks u'.last.id (r.log ++ [e]))
    rw [hrecorded.2]
    exact hphase
  · change Cores u'.runtime r.core1 r.trace
    rw [hcalled.runtime]
    exact h.cores
  · intro hstate
    rcases hcalled.settled with ⟨hlast, hgeneration⟩ | ⟨hno, _⟩
    · simp only [hlast] at hstate
      obtain ⟨hle, x, hx, hid, info, hstart, himage⟩ := h.installed hstate
      simp only [Installed, hlast, hgeneration, hcalled.runtime]
      exact ⟨hle, x, List.mem_append_left _ hx, hid, info, hstart, himage⟩
    · exact absurd hstate hno

variable {op : ServiceOp}

/-- A call that leaves the runtime and an installed record alone is exact. -/
theorem Called.exact {error : UploadError} (hcalled : Called r.service u')
    (hop : r.service.call op = (u', error, none, [])) : Exact r (.call op) := by
  have hstep : r.step (.call op) = { r with
      service := u'
      log := r.log ++ [⟨op, error, u'.last, []⟩] } := by
    simp [Run.step, hop]
  refine ⟨?_, ?_, ?_, ?_⟩
  · rw [hstep]
    intro hafter hbefore
    rcases hcalled.settled with ⟨hlast, _⟩ | ⟨_, hno, _⟩
    · simp only [hlast] at hafter
      exact absurd hafter hbefore
    · exact absurd hafter hno
  · rw [hstep]
    intro hne
    exact absurd (congrArg Runtime.published hcalled.runtime) hne
  · rw [hstep]
    intro hbefore hafter _
    rcases hcalled.settled with ⟨hlast, _⟩ | ⟨_, _, hfailed⟩
    · simp only [hlast, hbefore] at hafter
      cases hafter
    · rw [hfailed hafter] at hbefore
      cases hbefore
  · rw [hstep]
    intro e he hstop
    have heq := List.append_cancel_left he
    rw [← List.singleton_inj.mp heq] at hstop
    cases hstop

variable (h : Logged contract resident r)

include h

/-- The log after a call that is not a poll, and what the call can do. -/
theorem of_called {error : UploadError} {bytes : List Byte}
    (hcalled : Called r.service u') (hphase : u'.Phase bytes)
    (hop : r.service.call op = (u', error, none, []))
    (hrecorded : u'.account.Recorded (Accepted contract resident) (r.log ++ [⟨op, error, u'.last, []⟩]) ∧
      chunks u'.last.id (r.log ++ [⟨op, error, u'.last, []⟩]) = bytes) :
    Logged contract resident (r.step (.call op)) ∧ Exact r (.call op) := by
  refine ⟨?_, hcalled.exact hop⟩
  have hstep : r.step (.call op) = { r with
      service := u'
      log := r.log ++ [⟨op, error, u'.last, []⟩] } := by
    simp [Run.step, hop]
  rw [hstep]
  exact h.called hcalled hphase hrecorded

/-- A refused call that set at most the level of the arm input. -/
theorem of_refused (armed : Bool)
    (error : UploadError) (hop : r.service.call op = ({ r.service with armed := armed }, error, none, []))
    (hpoll : op.is_poll = false)
    (hnone : ∀ id, (⟨op, error, r.service.last, []⟩ : Entry Started).accepted id = []) :
    Logged contract resident (r.step (.call op)) ∧ Exact r (.call op) := by
  have hcalled : Called r.service { r.service with armed := armed } := ⟨rfl, rfl, .inl ⟨rfl, rfl⟩⟩
  exact h.of_called hcalled (h.phase.arm armed) hop (h.recorded.refused hpoll rfl rfl hnone)

/-- A begin opens a new record or leaves the last one. -/
theorem begin_step (owner : UInt32) (size : ℕ) (digest : List Byte)
    (armed : Bool) :
    Logged contract resident (r.step (.call (.begin owner size digest armed))) ∧
      Exact r (.call (.begin owner size digest armed)) := by
  rcases Upload.begin_cases { r.service with armed := armed } owner size digest with ⟨_, hsame⟩ | hb
  · refine h.of_refused armed
      ({ r.service with armed := armed }.begin owner size digest).1.error ?_ rfl (fun _ => rfl)
    simp only [Upload.call, hsame]
  · obtain rfl : armed = true := hb.armed
    have haccount : ({ r.service with armed := true }.begin owner size digest).2.account
        = ⟨owner, (r.service.next_id + 1) % 2 ^ 32,
          { id := r.service.next_id, size := size, state := .accepted, digest := digest }⟩ := by
      rw [hb.after]
      rfl
    have hstate : ({ r.service with armed := true }.begin owner size digest).2.last.state = .accepted := by
      rw [hb.after]
    have hcalled : Called r.service ({ r.service with armed := true }.begin owner size digest).2 := by
      refine ⟨by rw [hb.after]; rfl, by rw [hb.after]; rfl, .inr ?_⟩
      rw [hstate]
      simp
    exact h.of_called hcalled ((h.phase.arm true).begun hb) rfl
      (h.recorded.begin hb.next_ne haccount rfl (congrArg UploadAnswer.error hb.answer_eq) rfl rfl)

theorem chunk_step (owner : UInt32) (id offset : ℕ) (data : List Byte) :
    Logged contract resident (r.step (.call (.chunk owner id offset data))) ∧
      Exact r (.call (.chunk owner id offset data)) := by
  rcases Upload.chunk_cases r.service owner id offset data with ⟨herror, hsame⟩ | hc
  · refine h.of_refused r.service.armed
      (r.service.chunk owner id offset data).1.error ?_ rfl
      (fun _ => if_neg fun hand => herror hand.2)
    simp only [Upload.call, hsame]
  · have hstate : (r.service.chunk owner id offset data).2.last.state = r.service.last.state := by
      rw [hc.after]
    have hsame : r.service.account.Same (r.service.chunk owner id offset data).2.account := by
      rw [hc.after]
      exact ⟨rfl, rfl, rfl, rfl, rfl⟩
    have hcalled : Called r.service (r.service.chunk owner id offset data).2 := by
      refine ⟨by rw [hc.after], by rw [hc.after], .inr ?_⟩
      rw [hstate, hc.checked.state]
      simp
    exact h.of_called hcalled (h.phase.chunked hc) rfl
      (h.recorded.chunk hc.checked.id_eq hc.checked.state hsame hstate rfl
        (congrArg UploadAnswer.error hc.answer_eq) rfl rfl)

/-- A finish is refused, fails the record, or verifies it. -/
theorem finish_step (owner : UInt32) (id : ℕ) :
    Logged contract resident (r.step (.call (.finish owner id))) ∧ Exact r (.call (.finish owner id)) := by
  rcases Upload.finish_cases r.service owner id with ⟨_, hsame⟩ | ⟨hchecked, _, hafter⟩ | hf
  · refine h.of_refused r.service.armed (r.service.finish owner id).1.error ?_ rfl
      (fun _ => rfl)
    simp only [Upload.call, hsame]
  · have hphase := h.phase.spoiled hchecked (r.service.finish owner id).1.error
    rw [← hafter] at hphase
    have hsame : r.service.account.Same (r.service.finish owner id).2.account := by
      rw [hafter]
      exact ⟨rfl, rfl, rfl, rfl, rfl⟩
    have hstate : (r.service.finish owner id).2.last.state = .failed := by
      rw [hafter]
      rfl
    have hcalled : Called r.service (r.service.finish owner id).2 := by
      refine ⟨by rw [hafter]; rfl, by rw [hafter]; rfl, .inr ?_⟩
      rw [hstate]
      exact ⟨by simp, by simp, fun _ => hchecked.state⟩
    refine h.of_called hcalled hphase rfl (h.recorded.closes rfl rfl rfl (fun _ => rfl) hsame ?_)
    change is_open (r.service.finish owner id).2.last.state = false
    rw [hstate]
    rfl
  · have hsame : r.service.account.Same (r.service.finish owner id).2.account := by
      rw [hf.after]
      exact ⟨rfl, rfl, rfl, rfl, rfl⟩
    have hstate : (r.service.finish owner id).2.last.state = .verified := by rw [hf.after]
    have hcalled : Called r.service (r.service.finish owner id).2 := by
      refine ⟨by rw [hf.after], by rw [hf.after], .inr ?_⟩
      rw [hstate]
      simp
    refine h.of_called hcalled (h.phase.finished hf) rfl
      (h.recorded.quiet rfl rfl rfl (fun _ => rfl) hsame ?_ ?_)
    · intro hc
      cases hstate.symm.trans hc
    · intro _
      change is_open r.service.last.state = true
      rw [hf.checked.state]
      rfl

/-- A commit is refused, or an armed service takes the verified record on to committing. -/
theorem commit_step (owner : UInt32) (id : ℕ) (armed : Bool) :
    Logged contract resident (r.step (.call (.commit owner id armed))) ∧
      Exact r (.call (.commit owner id armed)) := by
  rcases Upload.commit_cases { r.service with armed := armed } owner id with ⟨_, hsame⟩ |
    ⟨hchecked, harmed, hanswer, hafter⟩
  · refine h.of_refused armed
      ({ r.service with armed := armed }.commit owner id).1.error ?_ rfl (fun _ => rfl)
    simp only [Upload.call, hsame]
  · obtain rfl : armed = true := harmed
    have hphase := (h.phase.arm true).committed hchecked.state
    rw [← hafter] at hphase
    have hsame : r.service.account.Same ({ r.service with armed := true }.commit owner id).2.account := by
      rw [hafter]
      exact ⟨rfl, rfl, rfl, rfl, rfl⟩
    have hstate : ({ r.service with armed := true }.commit owner id).2.last.state = .committing := by
      rw [hafter]
    have hcalled : Called r.service ({ r.service with armed := true }.commit owner id).2 := by
      refine ⟨by rw [hafter], by rw [hafter], .inr ?_⟩
      rw [hstate]
      simp
    refine h.of_called hcalled hphase rfl (h.recorded.quiet rfl rfl rfl (fun _ => rfl) hsame ?_ ?_)
    · intro _
      refine .inr ⟨?_, congrArg UploadAnswer.error hanswer⟩
      rw [hchecked.owner_eq, hchecked.id_eq]
      rfl
    · intro _
      change is_open r.service.last.state = true
      rw [show r.service.last.state = .verified from hchecked.state]
      rfl

/-- A transaction that is given up. -/
theorem aborted_step {owner : UInt32} {error error' : UploadError}
    (hop : r.service.call op = (u', error', none, []))
    (ha : Upload.Aborted r.service owner u' error) (hpoll : op.is_poll = false)
    (hnone : ∀ id, (⟨op, error', u'.last, []⟩ : Entry Started).accepted id = []) :
    Logged contract resident (r.step (.call op)) ∧ Exact r (.call op) := by
  have hsame : r.service.account.Same u'.account := by
    rw [ha.after]
    exact ⟨rfl, rfl, rfl, rfl, rfl⟩
  have hstate : u'.last.state = .aborted := by rw [ha.after]
  have hcalled : Called r.service u' := by
    refine ⟨by rw [ha.after]; rfl, by rw [ha.after]; rfl, .inr ?_⟩
    rw [hstate]
    simp
  refine h.of_called hcalled (h.phase.aborted ha) hop (h.recorded.closes hpoll rfl rfl hnone hsame ?_)
  change is_open u'.last.state = false
  rw [hstate]
  rfl

/-- A poll, as it shows in the run. -/
theorem poll_logged {requested : Option UInt32} {accesses : List (Hardware Started)}
    {now : UInt32} {armed : Bool} {board : Board} {overlaps : Bool}
    (hp : Upload.Polled { r.service with armed := armed } now board (chunks r.service.last.id r.log) u'
      requested accesses) :
    Logged contract resident { r with
      service := u'
      log := r.log ++ [⟨.poll now armed board overlaps, .none, u'.last, accesses⟩]
      ages := r.ages ++ requested.toList } := by
  have hrecorded : u'.account.Recorded (Accepted contract resident)
      (r.log ++ [⟨.poll now armed board overlaps, .none, u'.last, accesses⟩]) ∧
      chunks u'.last.id (r.log ++ [⟨.poll now armed board overlaps, .none, u'.last, accesses⟩])
        = chunks r.service.last.id r.log := by
    refine h.recorded.poll (b := u'.account) rfl rfl hp.same hp.made ?_ ?_
    · intro hflash
      obtain ⟨hstate, hid, hclosed, good, hvalid⟩ := hp.flashed hflash
      refine ⟨hstate, hclosed, hid, good.length, good.digest, ?_, ?_⟩
      · rw [← h.contract_eq]
        exact good.image
      · rw [← h.resident_eq]
        exact hvalid
    · intro hopen
      cases hp.outcome with
      | kept state => exact state
      | confirmed before state => rw [show u'.account.last.state = _ from state] at hopen; cases hopen
      | refused before state => rw [show u'.account.last.state = _ from state] at hopen; cases hopen
      | failed before state => rw [show u'.account.last.state = _ from state] at hopen; cases hopen
      | installed before state => rw [show u'.account.last.state = _ from state] at hopen; cases hopen
  refine ⟨hp.contract.trans h.contract_eq, hp.resident.trans h.resident_eq, ?_, hrecorded.1, ?_, ?_, ?_⟩
  · change u'.Phase (chunks u'.last.id (r.log ++ _))
    rw [hrecorded.2]
    exact hp.phase
  · intro age hage
    rcases List.mem_append.mp hage with hage | hage
    · exact h.ages age hage
    · exact (hp.lease age (Option.mem_toList.mp hage)).2
  -- core 1 is disturbed only by an exchange, which starts it over
  · have hsame : u'.runtime = r.service.runtime → Cores u'.runtime r.core1 r.trace := by
      intro hruntime
      rw [hruntime]
      exact h.cores
    cases hp.outcome with
    | kept _ runtime => exact hsame runtime
    | confirmed _ _ runtime => exact hsame runtime
    | refused _ _ _ runtime => exact hsame runtime
    | failed before state error published returned last =>
      refine h.cores.restarted returned ?_ ?_ (.inl published)
      · rw [last]
      · rw [published]
        exact Nat.zero_le _
    | installed before state published returned last =>
      have hnext : u'.runtime.published = r.service.runtime.generation.last_generation + 1 := published
      have hlt : r.service.runtime.generation.last_generation < u'.runtime.published := by
        rw [hnext]
        exact Nat.lt_succ_self _
      exact h.cores.restarted returned (by rw [last]; exact hlt.le) last.ge (.inr hlt)
  · intro hstate
    have hstate' : u'.last.state = .installed := hstate
    cases hp.outcome with
    | kept state runtime generation only =>
      obtain ⟨hle, x, hx, hid, info, hstart, himage⟩ := h.installed (by rw [← state]; exact hstate')
      have hidsame : u'.last.id = r.service.last.id := hp.same.id
      simp only at runtime generation
      simp only [Installed, hidsame, generation, runtime]
      exact ⟨hle, x, List.mem_append_left _ hx, hid, info, hstart, himage⟩
    | installed before state published returned last generation stopped started =>
      refine ⟨?_, _, List.mem_append_right _ (List.mem_singleton.mpr rfl), rfl, u'.runtime.image, ?_, ?_⟩
      · change u'.installed_generation ≤ _
        rw [generation, last]
      · rw [generation]
        exact started
      · intro _ _
        rfl
    | confirmed before state => rw [state] at hstate'; cases hstate'
    | refused before state => rw [state] at hstate'; cases hstate'
    | failed before state => rw [state] at hstate'; cases hstate'

/-- What a poll of a logged run can do. -/
theorem poll_exact {requested : Option UInt32} {accesses : List (Hardware Started)}
    {now : UInt32} {armed : Bool} {board : Board} {overlaps : Bool}
    (hp : Upload.Polled { r.service with armed := armed } now board (chunks r.service.last.id r.log) u'
      requested accesses)
    (hstep : r.step (.call (.poll now armed board overlaps)) = { r with
      service := u'
      log := r.log ++ [⟨.poll now armed board overlaps, .none, u'.last, accesses⟩]
      ages := r.ages ++ requested.toList }) :
    Exact r (.call (.poll now armed board overlaps)) := by
  have hid : u'.last.id = r.service.last.id := hp.same.id
  have hentry : ∀ e, r.log ++ [(⟨.poll now armed board overlaps, .none, u'.last, accesses⟩ : Entry Started)]
      = r.log ++ [e] → e.accesses = accesses := by
    intro e he
    rw [← List.singleton_inj.mp (List.append_cancel_left he)]
  have hno_stop : (∀ x ∈ accesses, is_pause x = true) → ∀ e,
      r.log ++ [(⟨.poll now armed board overlaps, .none, u'.last, accesses⟩ : Entry Started)]
        = r.log ++ [e] → .stop ∉ e.accesses := by
    intro honly e he hstop
    rw [hentry e he] at hstop
    cases honly _ hstop
  refine ⟨?_, ?_, ?_, ?_⟩
  · rw [hstep]
    intro hafter hbefore
    have hafter' : u'.last.state = .boot_confirmed := hafter
    cases hp.outcome with
    | kept state => exact absurd (state.symm.trans hafter') hbefore
    | confirmed before state runtime current published returned =>
      obtain ⟨_, x, hx, hxid, info, hstart, himage⟩ := h.installed before
      simp only at current published returned runtime
      -- the loop entry that returned is the one of the image started for this record
      obtain ⟨address, hreturn⟩ := h.cores.returned (by rw [returned]; exact published)
      have haddress := h.cores.ended _ address hreturn returned published
      rw [himage current published] at haddress
      refine ⟨x, hx, hxid.trans hid.symm, ⟨_, info⟩, hstart, ?_, ?_⟩
      · change u'.runtime.published = _
        rw [runtime, current]
      · rw [returned, current, haddress] at hreturn
        exact hreturn
    | refused before state => rw [state] at hafter'; cases hafter'
    | failed before state => rw [state] at hafter'; cases hafter'
    | installed before state => rw [state] at hafter'; cases hafter'
  · rw [hstep]
    intro hne
    have hworked : (∃ x ∈ accesses, is_flash x = true) → .stop ∈ accesses →
        ∃ e : Entry Started, r.log ++ [⟨.poll now armed board overlaps, .none, u'.last, accesses⟩]
          = r.log ++ [e] ∧ .stop ∈ e.accesses ∧ e.flashes :=
      fun hflash hstop => ⟨_, rfl, hstop, hflash⟩
    cases hp.outcome with
    | kept _ runtime => exact absurd (congrArg Runtime.published runtime) hne
    | confirmed _ _ runtime => exact absurd (congrArg Runtime.published runtime) hne
    | refused _ _ _ runtime => exact absurd (congrArg Runtime.published runtime) hne
    | failed before state error published returned last stopped =>
      exact .inr (hworked (hp.made.flash_of_stop stopped) stopped)
    | installed before state published returned last generation stopped =>
      exact .inr (hworked (hp.made.flash_of_stop stopped) stopped)
  · rw [hstep]
    intro hcommitting hfailed herror
    have hfailed' : u'.last.state = .failed := hfailed
    cases hp.outcome with
    | kept state =>
      rw [show u'.last.state = .committing from state.trans hcommitting] at hfailed'
      cases hfailed'
    | confirmed before state => rw [state] at hfailed'; cases hfailed'
    | installed before state => rw [state] at hfailed'; cases hfailed'
    | failed before state error => exact absurd error herror
    | refused before state error runtime only =>
      refine ⟨congrArg Runtime.published runtime, ?_⟩
      intro x hx hxid hflash
      rcases List.mem_append.mp hx with hx | hx
      -- flash work under this ID would have closed the record
      · have hclosed := h.recorded.flashed x hx hflash (hxid.trans hid)
        rw [show r.service.account.last.state = .committing from hcommitting] at hclosed
        cases hclosed
      · rw [List.mem_singleton.mp hx] at hflash
        exact not_flash_of_pause only hflash
  · rw [hstep]
    intro e he hstop
    cases hp.outcome with
    | kept state runtime generation only => exact absurd hstop (hno_stop only e he)
    | confirmed before state runtime current published returned quiet =>
      rw [hentry e he, quiet] at hstop
      cases hstop
    | refused before state error runtime only => exact absurd hstop (hno_stop only e he)
    | failed before state error published => exact .inr ⟨state, published⟩
    | installed before state => exact .inl state

/-- A step of the boot or of core 1: the service and its log stay, and the generation that
is published stays, or is a new one. -/
theorem of_runtime {runtime : Runtime} {core1 : Core1} {trace : List Invocation}
    (hcontract : runtime.contract = r.service.runtime.contract)
    (hlast : r.service.runtime.generation.last_generation ≤ runtime.generation.last_generation)
    (hpublished : runtime.published = r.service.runtime.published ∧
        runtime.image = r.service.runtime.image ∨
      r.service.runtime.generation.last_generation < runtime.published)
    (hcores : Cores runtime core1 trace) :
    Logged contract resident { r with
      service := { r.service with runtime := runtime }
      core1 := core1
      trace := trace } := by
  refine ⟨h.contract_eq, hcontract.trans h.resident_eq, h.phase.of_runtime hcontract, h.recorded, h.ages,
    hcores, ?_⟩
  intro hstate
  obtain ⟨hle, x, hx, hid, info, hstart, himage⟩ := h.installed hstate
  refine ⟨hle.trans hlast, x, hx, hid, info, hstart, ?_⟩
  intro hcurrent hne
  rcases hpublished with ⟨hsame, himage_same⟩ | hnew
  · change runtime.image = info
    rw [himage_same]
    exact himage (hsame.symm.trans hcurrent) (by rw [← hsame]; exact hne)
  · change runtime.published = r.service.installed_generation at hcurrent
    omega

/-- The boot may publish a generation, and touches no record. -/
theorem boot_step (slot : Option (List Byte)) (mapped_bytes : ℕ)
    (overlaps : Bool) :
    Logged contract resident (r.step (.boot slot mapped_bytes overlaps)) ∧
      Exact r (.boot slot mapped_bytes overlaps) := by
  have hlog : ∀ e, r.log ≠ r.log ++ [e] := by simp
  refine ⟨?_, ?_, fun _ => .inl ⟨slot, mapped_bytes, overlaps, rfl⟩, ?_, fun e he => absurd he (hlog e)⟩
  · have hsame : ∀ runtime : Runtime, runtime.contract = r.service.runtime.contract →
        runtime.generation = r.service.runtime.generation →
        runtime.published = r.service.runtime.published → runtime.image = r.service.runtime.image →
        runtime.returned = r.service.runtime.returned →
        Logged contract resident { r with service := { r.service with runtime := runtime } } := by
      intro runtime hcontract hgeneration hpublished himage hreturned
      refine h.of_runtime hcontract (by rw [hgeneration]) (.inl ⟨hpublished, himage⟩) ?_
      have hc := h.cores
      refine ⟨?_, ?_, ?_, ?_, ?_, hc.after, ?_⟩
      · rw [hpublished, hgeneration]; exact hc.published_le
      · rw [hgeneration]; exact hc.tick_le
      · rw [hgeneration]; exact hc.trace_le
      · rw [hpublished, himage]; exact hc.entered
      · rw [hpublished, himage]; exact hc.ended
      · rw [hreturned]; exact hc.returned
    change Logged contract resident { r with service := { r.service with
      runtime := (r.service.runtime.boot_from_slot slot mapped_bytes overlaps).2 } }
    unfold Runtime.boot_from_slot
    split
    · exact hsame _ rfl rfl rfl rfl rfl
    -- a start that fails keeps what is published; one that succeeds publishes the next generation
    rcases Runtime.start_from_slot_cases { r.service.runtime with boot_attempted := true } slot
        mapped_bytes overlaps with ⟨e, he⟩ | ⟨info, r', hr', hwith⟩
    · rw [he]
      exact hsame _ rfl rfl rfl rfl rfl
    · rw [hr']
      have hnext : r'.published = r.service.runtime.generation.last_generation + 1 := hwith.published
      have hlt : r.service.runtime.generation.last_generation < r'.published := by
        rw [hnext]
        exact Nat.lt_succ_self _
      have hle : r.service.runtime.generation.last_generation ≤ r'.generation.last_generation := by
        rw [hwith.last]
        exact hlt.le
      exact h.of_runtime hwith.contract hle (.inr hlt)
        (h.cores.restarted hwith.returned hle hwith.last.ge (.inr hlt))
  · intro hafter hbefore
    exact absurd hafter hbefore
  · intro hcommitting hfailed
    rw [show r.service.last.state = .failed from hfailed] at hcommitting
    cases hcommitting

theorem core1_step :
    Logged contract resident (r.step .core1) ∧ Exact r .core1 := by
  have hlog : ∀ e, r.log ≠ r.log ++ [e] := by simp
  have hkept : (r.core1.step r.service.runtime).1.contract = r.service.runtime.contract ∧
      (r.core1.step r.service.runtime).1.generation = r.service.runtime.generation ∧
      (r.core1.step r.service.runtime).1.published = r.service.runtime.published ∧
      (r.core1.step r.service.runtime).1.image = r.service.runtime.image := by
    unfold Core1.step
    split
    · split <;> exact ⟨rfl, rfl, rfl, rfl⟩
    · split <;> exact ⟨rfl, rfl, rfl, rfl⟩
    all_goals exact ⟨rfl, rfl, rfl, rfl⟩
  obtain ⟨hcontract, hgeneration, hpublished, himage⟩ := hkept
  refine ⟨?_, ?_, ?_, ?_, fun e he => absurd he (hlog e)⟩
  · have hle := (congrArg Generation.last_generation hgeneration).ge
    exact h.of_runtime hcontract hle (.inl ⟨hpublished, himage⟩) h.cores.step
  · intro hafter hbefore
    exact absurd hafter hbefore
  · intro hne
    exact absurd hpublished hne
  · intro hcommitting hfailed
    rw [show r.service.last.state = .failed from hfailed] at hcommitting
    cases hcommitting

/-- **Every step keeps the run and its log in agreement**, and does what it may. -/
theorem step (op : Op) :
    Logged contract resident (r.step op) ∧ Exact r op := by
  cases op with
  | call op =>
    cases op with
    | begin owner size digest armed => exact h.begin_step owner size digest armed
    | chunk owner id offset data => exact h.chunk_step owner id offset data
    | finish owner id => exact h.finish_step owner id
    | commit owner id armed => exact h.commit_step owner id armed
    | abort owner id =>
      rcases Upload.abort_cases r.service owner id with ⟨_, hsame⟩ | ⟨_, _, _, ha⟩
      · refine h.of_refused r.service.armed (r.service.abort owner id).1.error ?_ rfl (fun _ => rfl)
        simp only [Upload.call, hsame]
      · exact h.aborted_step rfl ha rfl (fun _ => rfl)
    | status id => exact h.of_refused r.service.armed (r.service.status id).error rfl rfl (fun _ => rfl)
    | disconnect owner =>
      rcases Upload.disconnect_cases r.service owner with hsame | ha
      · refine h.of_refused r.service.armed .none ?_ rfl (fun _ => rfl)
        simp only [Upload.call, hsame]
      · exact h.aborted_step rfl ha rfl (fun _ => rfl)
    | poll now armed board overlaps =>
      have hp := (h.phase.arm armed).polled now board overlaps
      exact ⟨h.poll_logged hp, h.poll_exact hp rfl⟩
  | boot slot mapped_bytes overlaps => exact h.boot_step slot mapped_bytes overlaps
  | core1 => exact h.core1_step

end Logged

/-! ## Every run -/

theorem Run.logged_after (contract resident : Contract) (arena : Arena) (ops : List Op) :
    Logged contract resident (Run.after contract resident arena ops) := by
  refine Runs.run_invariant (P := Logged contract resident) Run.step ?_ (fun r op h => (h.step op).1) ops
  refine ⟨rfl, rfl, .idle rfl rfl rfl, .initial rfl rfl, by simp, ?_, fun h => (by cases h)⟩
  exact ⟨le_refl _, by simp [Tick.current], by simp, by simp, by simp, by simp, fun h => absurd rfl h⟩

/-- **Flash safety and exact confirmation.** In every run of the FMS2 service, with any calls,
any arm input, any hardware and any progress of core 1: flash work happens in polls only, armed
and with core 1 parked, once for an ID, and writes the pages of the chunks accepted for it,
which have the announced size and digest and are an image for the resident; no replacement is
requested from a stage of 30000 ms or more; a record is confirmed only while the generation its
own replacement started is published and after its loop entry returned; a commit that is
denied, times out or expires changes neither the published generation nor the flash; and once
the old generation was stopped there is an installation or no generation at all. -/
theorem replacement_safety (contract resident : Contract) (arena : Arena) (ops : List Op) :
    FlashSafe (Accepted contract resident) (Run.after contract resident arena ops).log ∧
      (∀ age ∈ (Run.after contract resident arena ops).ages, age < staging_timeout_ms) ∧
      ∀ op, Exact (Run.after contract resident arena ops) op := by
  have h := Run.logged_after contract resident arena ops
  exact ⟨h.recorded.safe, h.ages, fun op => (h.step op).2⟩

end Firmingo.Managed.Stateful
