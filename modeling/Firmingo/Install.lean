/-
Staging and installing a capsule: `stage`, `install` and `switch` of
`experiments/managed_sketch`.

`CapsuleStage` collects a capsule in RAM, `install_verified_capsule` writes it to the
sketch slot and reads it back, and `SketchSwitch` does so with core 1 parked. What the
hardware answers is data of the call (`Board`); what it is asked to do is a list of
`Hardware` accesses in program order, so that a statement about flash is a statement
about that list.
-/
import Firmingo.Backends
import Firmingo.Image

set_option autoImplicit false

open Octets

namespace Firmingo.Managed

/-! ## The stage -/

def kProofStageBytes : ℕ := 4096

/-- `StageResult`. -/
inductive StageResult
  | ok
  | unauthorized
  | busy
  | invalid_argument
  | wrong_owner
  | invalid_state
  | wrong_offset
  | incomplete
  | digest_mismatch
  | invalid_image
  deriving DecidableEq, Repr

/-- `CapsuleStage`. -/
structure CapsuleStage where
  bytes : List Byte := List.replicate kProofStageBytes 0
  expected_digest : List Byte := List.replicate 32 0
  owner : UInt32 := 0
  api_address : ℕ := 0
  expected_bytes : ℕ := 0
  received : ℕ := 0
  verified : Bool := false
  deriving DecidableEq, Repr

namespace CapsuleStage

/-- `clear`. -/
def clear : CapsuleStage := {}

def active (s : CapsuleStage) : Bool := s.owner ≠ 0

/-- `begin`. The digest is never null here: its callers pass an array. -/
def begin (s : CapsuleStage) (owner : UInt32) (authorized : Bool) (total_bytes : ℕ)
    (digest : List Byte) (api_address : ℕ) : StageResult × CapsuleStage :=
  if !authorized then (.unauthorized, s)
  else if s.owner ≠ 0 then (.busy, s)
  else if owner = 0 || total_bytes ≤ kCodeOffset || total_bytes > kProofStageBytes
      || api_address = 0 then (.invalid_argument, s)
  else
    (.ok, { s with
      owner := owner
      api_address := api_address
      expected_bytes := total_bytes
      received := 0
      verified := false
      expected_digest := digest })

/-- `append`. -/
def append (s : CapsuleStage) (owner : UInt32) (offset : ℕ) (data : List Byte) :
    StageResult × CapsuleStage :=
  if s.owner = 0 || s.verified then (.invalid_state, s)
  else if owner ≠ s.owner then (.wrong_owner, s)
  else if data = [] then (.invalid_argument, s)
  else if offset ≠ s.received then (.wrong_offset, s)
  else if data.length > s.expected_bytes - s.received then (.invalid_argument, s)
  else
    (.ok, { s with
      bytes := copy_at s.bytes s.received data
      received := s.received + data.length })

/-- What the stage holds of the announced capsule. -/
def capsule (s : CapsuleStage) : List Byte := s.bytes.take s.expected_bytes

/-- `finish`. -/
def finish (s : CapsuleStage) (owner : UInt32) : StageResult × CapsuleStage :=
  if s.owner = 0 || s.verified then (.invalid_state, s)
  else if owner ≠ s.owner then (.wrong_owner, s)
  else if s.received ≠ s.expected_bytes then (.incomplete, s)
  else if sha256 s.capsule ≠ s.expected_digest then (.digest_mismatch, clear)
  else
    match validate_image (some s.capsule) s.expected_bytes s.api_address with
    | .error _ => (.invalid_image, clear)
    | .ok info =>
      if s.expected_bytes ≠ kCodeOffset + info.code_bytes then (.invalid_image, clear)
      else (.ok, { s with verified := true })

/-- `abort`. -/
def abort (s : CapsuleStage) (owner : UInt32) : StageResult × CapsuleStage :=
  if s.owner = 0 then (.invalid_state, s)
  else if owner ≠ s.owner then (.wrong_owner, s)
  else (.ok, clear)

/-- `verified`: the capsule, if it was verified for this owner. -/
def verified_capsule (s : CapsuleStage) (owner : UInt32) : Option (List Byte) :=
  if !s.verified || owner ≠ s.owner then none else some s.capsule

end CapsuleStage

/-! ## The hardware -/

/-- What core 0 asks of core 1, of the flash and of the sketch runtime, each with the
answer it got. A start is told the image, in the terms of its format. -/
inductive Hardware (ι : Type)
  | pause_request (granted : Bool)
  | pause_parked (parked : Bool)
  | pause_release
  | stop
  | flash_begin (ok : Bool)
  | flash_erase (offset size : ℕ) (ok : Bool)
  | flash_program (offset : ℕ) (page : List Byte) (ok : Bool)
  | flash_end
  | slot_data (bytes : Option (List Byte))
  | start (image : ι)
  deriving DecidableEq, Repr

/-- How the hardware answers during one poll: the pause, the flash port call by call,
and the slot as the installer and as the switch read it. -/
structure Board where
  request : Bool
  parked : Bool
  flash_begin : Bool
  erase : Bool
  program : ℕ → Bool
  installed : Option (List Byte)
  slot : Option (List Byte)

/-! ## The installer -/

def kFlashXipAddress : ℕ := 0x10000000
def kProofSectorBytes : ℕ := 4096
def kProofPageBytes : ℕ := 256
def slot_offset : ℕ := kSlotAddress - kFlashXipAddress

/-- `InstallResult`. -/
inductive InstallResult
  | ok
  | no_verified_capsule
  | invalid_image
  | flash_begin_failed
  | erase_failed
  | program_failed
  | readback_failed
  deriving DecidableEq, Repr

/-- `InstallReport`. -/
structure InstallReport where
  result : InstallResult
  slot_touched : Bool
  deriving DecidableEq, Repr

/-- The page at an offset of the capsule, filled up with erased bytes. -/
def page (capsule : List Byte) (offset : ℕ) : List Byte :=
  let count := min (capsule.length - offset) kProofPageBytes
  (capsule.drop offset).take count ++ List.replicate (kProofPageBytes - count) 0xff

/-- The offsets of the page loop. -/
def page_offsets (size : ℕ) : List ℕ :=
  (List.range ((size + (kProofPageBytes - 1)) / kProofPageBytes)).map (· * kProofPageBytes)

section Slot

variable {ι : Type}

/-- The page loop: it stops at the first page the port refuses. -/
def program_pages (program : ℕ → Bool) (capsule : List Byte) : List ℕ → Bool × List (Hardware ι)
  | [] => (true, [])
  | offset :: rest =>
    let access : Hardware ι := .flash_program (slot_offset + offset) (page capsule offset) (program offset)
    if program offset then
      let (ok, accesses) := program_pages program capsule rest
      (ok, access :: accesses)
    else (false, [access])

/-- Erasing and programming, between `begin` and `end`. -/
def write_slot (board : Board) (capsule : List Byte) : InstallResult × List (Hardware ι) :=
  let erase : Hardware ι := .flash_erase slot_offset kProofSectorBytes board.erase
  if !board.erase then (.erase_failed, [erase])
  else
    let (ok, accesses) := program_pages board.program capsule (page_offsets capsule.length)
    (if ok then .ok else .program_failed, erase :: accesses)

end Slot

/-- Whether the slot reads back as the capsule. -/
def read_back (written : Option (List Byte)) (capsule : List Byte) (accepted : Bool) : Bool :=
  match written with
  | none => false
  | some bytes => bytes.take capsule.length = capsule && accepted

/-- `install_verified_capsule`. -/
def install_verified_capsule (stage : CapsuleStage) (owner : UInt32) (api_address : ℕ)
    (board : Board) : InstallReport × List (Hardware ImageInfo) :=
  match stage.verified_capsule owner with
  | none => (⟨.no_verified_capsule, false⟩, [])
  | some capsule =>
    let size := capsule.length
    let fits : Bool := match validate_image (some capsule) size api_address with
      | .error _ => false
      | .ok info => size = kCodeOffset + info.code_bytes
    if size > kProofSectorBytes || size ≤ kCodeOffset || !fits then (⟨.invalid_image, false⟩, [])
    else if !board.flash_begin then (⟨.flash_begin_failed, false⟩, [.flash_begin false])
    else
      let (result, accesses) := write_slot board capsule
      let accesses := .flash_begin true :: accesses ++ [.flash_end]
      if result ≠ .ok then (⟨result, true⟩, accesses)
      else
        let accesses := accesses ++ [.slot_data board.installed]
        let accepted := (validate_image board.installed kProofSectorBytes api_address).isOk
        if read_back board.installed capsule accepted then (⟨.ok, true⟩, accesses)
        else (⟨.readback_failed, true⟩, accesses)

/-! ## The switch -/

/-- `SwitchStatus`. -/
inductive SwitchStatus
  | idle
  | waiting
  | complete
  | timeout
  | denied
  | install_failed
  deriving DecidableEq, Repr

/-- `SwitchReport`. -/
structure SwitchReport where
  status : SwitchStatus
  install : InstallResult
  slot_touched : Bool
  deriving DecidableEq, Repr

/-- `SketchSwitch`, without the objects it refers to. -/
structure SketchSwitch where
  owner : UInt32 := 0
  api_address : ℕ := 0
  started_at : UInt32 := 0
  deriving DecidableEq, Repr

namespace SketchSwitch

def pause_timeout_ms : UInt32 := 1000

def active (s : SketchSwitch) : Bool := s.owner ≠ 0

/-- `begin`. The pause is only asked once everything else is in order. -/
def begin (s : SketchSwitch) (stage : CapsuleStage) (board : Board) (owner : UInt32)
    (api_address : ℕ) (now : UInt32) : Bool × SketchSwitch × List (Hardware ImageInfo) :=
  if s.owner ≠ 0 || owner = 0 || api_address = 0 then (false, s, [])
  else
    match stage.verified_capsule owner with
    | none => (false, s, [])
    | some capsule =>
      if capsule = [] then (false, s, [])
      else if !board.request then (false, s, [.pause_request false])
      else (true, ⟨owner, api_address, now⟩, [.pause_request true])

/-- The installation, with core 1 parked. -/
def install (s : SketchSwitch) (stage : CapsuleStage) (board : Board) :
    SwitchReport × List (Hardware ImageInfo) :=
  let (installed, accesses) := install_verified_capsule stage s.owner s.api_address board
  if installed.result = .ok then
    match validate_image board.slot kProofSectorBytes s.api_address with
    | .ok info => (⟨.complete, .ok, installed.slot_touched⟩, .stop :: accesses
        ++ [.slot_data board.slot, .start info])
    | .error _ => (⟨.install_failed, .readback_failed, installed.slot_touched⟩,
        .stop :: accesses ++ [.slot_data board.slot])
  else (⟨.install_failed, installed.result, installed.slot_touched⟩, .stop :: accesses)

/-- `poll`: the report, the switch, the stage, and what the hardware was asked. -/
def poll (s : SketchSwitch) (stage : CapsuleStage) (board : Board) (now : UInt32)
    (physically_armed : Bool) : SwitchReport × SketchSwitch × CapsuleStage × List (Hardware ImageInfo) :=
  let ended : SketchSwitch := { s with owner := 0 }
  let cleared := (stage.abort s.owner).2
  if s.owner = 0 then (⟨.idle, .no_verified_capsule, false⟩, s, stage, [])
  else if !physically_armed then
    (⟨.denied, .no_verified_capsule, false⟩, ended, cleared, [.pause_release])
  else if !board.parked then
    if now - s.started_at < pause_timeout_ms then
      (⟨.waiting, .no_verified_capsule, false⟩, s, stage, [.pause_parked false])
    else
      (⟨.timeout, .no_verified_capsule, false⟩, ended, cleared, [.pause_parked false, .pause_release])
  else
    let (report, accesses) := s.install stage board
    (report, ended, cleared, .pause_parked true :: accesses ++ [.pause_release])

end SketchSwitch

/-! ## What the hardware is asked -/

section Accesses

variable {ι : Type}

/-- The pages of a capsule that were programmed, all accepted. -/
def programmed (capsule : List Byte) (offsets : List ℕ) : List (Hardware ι) :=
  offsets.map fun offset => .flash_program (slot_offset + offset) (page capsule offset) true

/-- The ways the slot is written: it is not erased; some pages are programmed and the
next one is refused; or all pages are programmed. -/
inductive Writes (capsule : List Byte) : Bool → List (Hardware ι) → Prop
  | unerased : Writes capsule false [.flash_erase slot_offset kProofSectorBytes false]
  | cut (done rest : List ℕ) (offset : ℕ) (h : page_offsets capsule.length = done ++ offset :: rest) :
      Writes capsule false (.flash_erase slot_offset kProofSectorBytes true ::
        (programmed capsule done ++
          [.flash_program (slot_offset + offset) (page capsule offset) false]))
  | whole : Writes capsule true (.flash_erase slot_offset kProofSectorBytes true ::
      programmed capsule (page_offsets capsule.length))

/-- The pages are programmed in order, up to the first that is refused. -/
theorem program_pages_cases (program : ℕ → Bool) (capsule : List Byte) (offsets : List ℕ) :
    program_pages (ι := ι) program capsule offsets = (true, programmed capsule offsets) ∨
    ∃ done offset rest, offsets = done ++ offset :: rest ∧
      program_pages (ι := ι) program capsule offsets = (false, programmed capsule done ++
        [.flash_program (slot_offset + offset) (page capsule offset) false]) := by
  induction offsets with
  | nil => exact .inl rfl
  | cons offset offsets ih =>
    cases hok : program offset with
    | false =>
      refine .inr ⟨[], offset, offsets, rfl, ?_⟩
      simp [program_pages, hok, programmed]
    | true =>
      rcases ih with h | ⟨done, bad, rest, rfl, h⟩
      · refine .inl ?_
        simp [program_pages, hok, h, programmed]
      · refine .inr ⟨offset :: done, bad, rest, rfl, ?_⟩
        simp [program_pages, hok, h, programmed]

/-- What is written is the erase and the pages of the capsule. -/
theorem write_slot_writes (board : Board) (capsule : List Byte) :
    Writes capsule (decide ((write_slot (ι := ι) board capsule).1 = .ok))
      (write_slot (ι := ι) board capsule).2 := by
  unfold write_slot
  cases herase : board.erase with
  | false => exact .unerased
  | true =>
    simp only [Bool.not_true, Bool.false_eq_true, if_false]
    rcases program_pages_cases (ι := ι) board.program capsule (page_offsets capsule.length) with
      h | ⟨done, offset, rest, hsplit, h⟩
    · rw [h]
      exact .whole
    · rw [h]
      exact .cut done rest offset hsplit

/-- A later page is a page of the rest. -/
theorem page_drop (capsule : List Byte) (offset : ℕ) :
    page capsule (offset + kProofPageBytes) = page (capsule.drop kProofPageBytes) offset := by
  unfold page
  rw [List.drop_drop, List.length_drop, Nat.add_comm kProofPageBytes offset,
    Nat.sub_sub, Nat.add_comm kProofPageBytes offset]

/-- All pages together are the capsule, filled up to a whole page. -/
theorem pages_join (capsule : List Byte) :
    ∃ fill < kProofPageBytes, (page_offsets capsule.length).flatMap (page capsule)
      = capsule ++ List.replicate fill 0xff := by
  unfold page_offsets
  rw [List.flatMap_map]
  -- induction on the number of pages, which shrinks with the capsule
  generalize hk : (capsule.length + (kProofPageBytes - 1)) / kProofPageBytes = k
  induction k generalizing capsule with
  | zero =>
    simp only [kProofPageBytes] at hk
    have hnil : capsule = [] := List.length_eq_zero_iff.mp (by omega)
    exact ⟨0, by decide, by simp [hnil]⟩
  | succ k ih =>
    have hrest : ∀ i, page capsule ((i + 1) * kProofPageBytes)
        = page (capsule.drop kProofPageBytes) (i * kProofPageBytes) := by
      intro i
      rw [Nat.succ_mul, page_drop]
    rw [List.range_succ_eq_map, List.flatMap_cons, List.flatMap_map, Nat.zero_mul]
    simp only [Nat.succ_eq_add_one, hrest]
    by_cases hlen : kProofPageBytes ≤ capsule.length
    · obtain ⟨fill, hlt, hjoin⟩ := ih (capsule.drop kProofPageBytes) (by
        rw [List.length_drop]
        simp only [kProofPageBytes] at hk hlen ⊢
        omega)
      refine ⟨fill, hlt, ?_⟩
      have hfirst : page capsule 0 = capsule.take kProofPageBytes := by
        simp [page, min_eq_right hlen]
      rw [hjoin, hfirst, ← List.append_assoc, List.take_append_drop]
    · have hk0 : k = 0 := by
        simp only [kProofPageBytes] at hk hlen
        omega
      have hfirst : page capsule 0
          = capsule ++ List.replicate (kProofPageBytes - capsule.length) 0xff := by
        have hmin : min capsule.length kProofPageBytes = capsule.length := by omega
        simp [page, hmin]
      refine ⟨kProofPageBytes - capsule.length, ?_, ?_⟩
      · simp only [kProofPageBytes] at hk ⊢
        omega
      · simp [hk0, hfirst]

/-- What follows the writes: nothing if they failed, and otherwise the slot is read. The
sketch is started after two reads, of which the first showed the capsule. -/
inductive Rereads (capsule : List Byte) : Bool → List (Hardware ι) → Prop
  | failed : Rereads capsule false []
  | unlike (seen : Option (List Byte)) : Rereads capsule true [.slot_data seen]
  | unstarted (written : List Byte) (slot : Option (List Byte))
      (same : written.take capsule.length = capsule) :
      Rereads capsule true [.slot_data (some written), .slot_data slot]
  | started (written : List Byte) (slot : Option (List Byte)) (image : ι)
      (same : written.take capsule.length = capsule) :
      Rereads capsule true [.slot_data (some written), .slot_data slot, .start image]

def is_pause : Hardware ι → Bool
  | .pause_request _ | .pause_parked _ | .pause_release => true
  | _ => false

/-- Work on the flash, refused or not. -/
def is_flash : Hardware ι → Bool
  | .flash_begin _ | .flash_erase _ _ _ | .flash_program _ _ _ | .flash_end => true
  | _ => false

/-- The accesses of one poll: the pause alone, or with core 1 parked and the input armed
an installation of the capsule, which `begin` of the port may refuse. -/
inductive Accesses (armed parked : Bool) (capsule : List Byte) : List (Hardware ι) → Prop
  | pausing (accesses : List (Hardware ι)) (only : ∀ x ∈ accesses, is_pause x = true) :
      Accesses armed parked capsule accesses
  | refused (ask : List (Hardware ι)) (asked : ask = [] ∨ ask = [.pause_request true])
      (arm : armed = true) (park : parked = true) :
      Accesses armed parked capsule
        (ask ++ [.pause_parked true, .stop, .flash_begin false, .pause_release])
  | installing (ask : List (Hardware ι)) (asked : ask = [] ∨ ask = [.pause_request true])
      (arm : armed = true) (park : parked = true) (whole : Bool)
      (writes rereads : List (Hardware ι)) (written : Writes capsule whole writes)
      (reread : Rereads capsule whole rereads) :
      Accesses armed parked capsule (ask ++ [.pause_parked true, .stop, .flash_begin true]
        ++ writes ++ [.flash_end] ++ rereads ++ [.pause_release])

/-- The pause may have been asked for before. -/
theorem pause_after {ask more : List (Hardware ι)} (hask : ask = [] ∨ ask = [.pause_request true])
    (hmore : ∀ x ∈ more, is_pause x = true) : ∀ x ∈ ask ++ more, is_pause x = true := by
  intro x hx
  rcases List.mem_append.mp hx with hx | hx
  · rcases hask with rfl | rfl
    · cases hx
    · rw [List.mem_singleton.mp hx]
      rfl
  · exact hmore x hx

/-- Nothing that touches the pause alone works on the flash. -/
theorem not_flash_of_pause {accesses : List (Hardware ι)} (honly : ∀ x ∈ accesses, is_pause x = true) :
    ¬ ∃ x ∈ accesses, is_flash x = true := by
  rintro ⟨x, hx, hflash⟩
  have hpause := honly x hx
  cases x with
  | pause_request granted => cases hflash
  | pause_parked parked => cases hflash
  | pause_release => cases hflash
  | _ => cases hpause

/-- The sketch is only stopped to work on the flash. -/
theorem Accesses.flash_of_stop {armed parked : Bool} {capsule : List Byte}
    {accesses : List (Hardware ι)} (h : Accesses armed parked capsule accesses)
    (hstop : .stop ∈ accesses) : ∃ x ∈ accesses, is_flash x = true := by
  cases h with
  | pausing _ only => cases only _ hstop
  | refused ask => exact ⟨.flash_begin false, by simp, rfl⟩
  | installing ask => exact ⟨.flash_begin true, by simp, rfl⟩

end Accesses

end Firmingo.Managed
