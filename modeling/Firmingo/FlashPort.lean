/-
The installers on a flash that may misbehave.

`Firmingo.Install` and `Firmingo.StatefulRuntime` say what the installers ask of the flash port,
with the answers given in advance. Here the port has a memory. A call may report what it
likes and leave anything in its own range; it reaches no other byte. The two installers
share everything from `begin` of the port on, and differ in what they ask of the sector when
they read it back.

The page loop is taken page by page: what a page leaves outside its range is what was there,
and on a port whose successful calls do what they should the sector ends up as the capsule,
followed by erased bytes.
-/
import Firmingo.Boot

set_option autoImplicit false

open Octets

namespace Firmingo.Managed

/-! ## The port -/

/-- The flash, byte by byte from its start. -/
abbrev Memory := ℕ → Byte

/-- A flash port during one installation: what each call answers, and what its range holds
afterwards. No two calls of an installation have the same arguments. -/
structure FlashPort where
  begin : Bool
  erase : Memory → Bool × Memory
  program : Memory → ℕ → List Byte → Bool × Memory
  /-- `slot_data` is not null. -/
  mapped : Bool

/-- A call reaches the bytes of its range. -/
def Memory.patched (m new : Memory) (offset size : ℕ) : Memory :=
  fun i => if offset ≤ i ∧ i < offset + size then new i else m i

/-- The first sector of the slot. -/
def Memory.sector (m : Memory) : List Byte :=
  (List.range kProofSectorBytes).map fun i => m (slot_offset + i)

/-- Successful calls do what they should: erased bytes are all ones, and programming clears
bits. -/
structure FlashPort.Honest (port : FlashPort) : Prop where
  erase : ∀ m, (port.erase m).1 = true → ∀ i < kProofSectorBytes, (port.erase m).2 (slot_offset + i) = 0xff
  program : ∀ m offset page, (port.program m offset page).1 = true → ∀ k < page.length,
    (port.program m offset page).2 (offset + k) = m (offset + k) &&& page.getD k 0

namespace FlashPort

section Install

variable {ι : Type}

/-- The page loop. -/
def program_pages (port : FlashPort) (capsule : List Byte) :
    Memory → List ℕ → Bool × Memory × List (Hardware ι)
  | m, [] => (true, m, [])
  | m, offset :: rest =>
    let (ok, new) := port.program m (slot_offset + offset) (page capsule offset)
    let m := m.patched new (slot_offset + offset) (page capsule offset).length
    let access : Hardware ι := .flash_program (slot_offset + offset) (page capsule offset) ok
    if ok then
      let (all, m, accesses) := port.program_pages capsule m rest
      (all, m, access :: accesses)
    else (false, m, [access])

/-- Erasing and programming, between `begin` and `end`. -/
def write_slot (port : FlashPort) (m : Memory) (capsule : List Byte) :
    InstallResult × Memory × List (Hardware ι) :=
  let (erased, new) := port.erase m
  let m := m.patched new slot_offset kProofSectorBytes
  let access : Hardware ι := .flash_erase slot_offset kProofSectorBytes erased
  if !erased then (.erase_failed, m, [access])
  else
    let (ok, m, accesses) := port.program_pages capsule m (page_offsets capsule.length)
    (if ok then .ok else .program_failed, m, access :: accesses)

/-- `slot_data`. -/
def slot_data (port : FlashPort) (m : Memory) : Option (List Byte) :=
  if port.mapped then some m.sector else none

/-- What both installers do from `begin` of the port on; `accepts` is what they ask of the
slot when they read it back. -/
def install (port : FlashPort) (m : Memory) (capsule : List Byte)
    (accepts : Option (List Byte) → Bool) : InstallReport × Memory × List (Hardware ι) :=
  if !port.begin then (⟨.flash_begin_failed, false⟩, m, [.flash_begin false])
  else
    let (result, m, accesses) := port.write_slot m capsule
    let accesses := .flash_begin true :: accesses ++ [.flash_end]
    if result ≠ .ok then (⟨result, true⟩, m, accesses)
    else
      let accesses := accesses ++ [.slot_data (port.slot_data m)]
      (⟨if accepts (port.slot_data m) then .ok else .readback_failed, true⟩, m, accesses)

end Install

end FlashPort

/-- `install_verified_capsule`, on a port with a memory. -/
def install_verified_capsule_on (port : FlashPort) (m : Memory) (stage : CapsuleStage) (owner : UInt32)
    (api_address : ℕ) : InstallReport × Memory × List (Hardware ImageInfo) :=
  match stage.verified_capsule owner with
  | none => (⟨.no_verified_capsule, false⟩, m, [])
  | some capsule =>
    let size := capsule.length
    let fits : Bool := match validate_image (some capsule) size api_address with
      | .error _ => false
      | .ok info => size = kCodeOffset + info.code_bytes
    if size > kProofSectorBytes || size ≤ kCodeOffset || !fits then (⟨.invalid_image, false⟩, m, [])
    else port.install m capsule fun written =>
      read_back written capsule (validate_image written kProofSectorBytes api_address).isOk

/-- `Replacement::install`, on a port with a memory. -/
def Stateful.Replacement.install_on (p : Stateful.Replacement) (r : Stateful.Runtime) (port : FlashPort)
    (m : Memory) : InstallReport × Memory × List (Hardware Stateful.Started) :=
  port.install m p.capsule fun slot =>
    read_back slot p.capsule (accepts r.contract (slot.getD []) p.bytes) && erased_tail (slot.getD []) p.bytes

/-! ## The page loop -/

section Pages

variable {ι : Type} (port : FlashPort) (capsule : List Byte)

/-- A call that was refused. -/
def refused : Hardware ι → Bool
  | .flash_begin false | .flash_erase _ _ false | .flash_program _ _ false => true
  | _ => false

theorem patched_outside (m new : Memory) {offset size i : ℕ} (h : ¬ (offset ≤ i ∧ i < offset + size)) :
    m.patched new offset size i = m i := if_neg h

theorem patched_inside (m new : Memory) {offset size i : ℕ} (h : offset ≤ i ∧ i < offset + size) :
    m.patched new offset size i = new i := if_pos h

/-- Where a byte of the loop's memory has changed, a page was programmed. -/
theorem program_pages_outside (m : Memory) (offsets : List ℕ) {i : ℕ}
    (h : ∀ offset ∈ offsets, ¬ (slot_offset + offset ≤ i ∧ i < slot_offset + offset + kProofPageBytes)) :
    (port.program_pages (ι := ι) capsule m offsets).2.1 i = m i := by
  induction offsets generalizing m with
  | nil => rfl
  | cons offset rest ih =>
    have hhere := h offset (by simp)
    have hlen := page_length capsule offset
    unfold FlashPort.program_pages
    simp only
    split
    · rw [ih _ fun o ho => h o (by simp [ho])]
      exact patched_outside _ _ (by rw [hlen]; exact hhere)
    · exact patched_outside _ _ (by rw [hlen]; exact hhere)

/-- Every access of the loop is a page. -/
theorem program_pages_accesses (m : Memory) (offsets : List ℕ) :
    ∀ x ∈ (port.program_pages (ι := ι) capsule m offsets).2.2, ∃ offset ∈ offsets, ∃ ok,
      x = .flash_program (slot_offset + offset) (page capsule offset) ok := by
  induction offsets generalizing m with
  | nil => exact fun x hx => by cases hx
  | cons offset rest ih =>
    intro x hx
    unfold FlashPort.program_pages at hx
    simp only at hx
    split at hx
    · rcases List.mem_cons.mp hx with rfl | hx
      · exact ⟨offset, by simp, _, rfl⟩
      · obtain ⟨o, ho, hok⟩ := ih _ x hx
        exact ⟨o, by simp [ho], hok⟩
    · rw [List.mem_singleton.mp hx]
      exact ⟨offset, by simp, _, rfl⟩

/-- The loop ends well if and only if no page is refused. -/
theorem program_pages_ok_iff (m : Memory) (offsets : List ℕ) :
    (port.program_pages (ι := ι) capsule m offsets).1 = true ↔
      ∀ x ∈ (port.program_pages (ι := ι) capsule m offsets).2.2, refused x = false := by
  induction offsets generalizing m with
  | nil => simp [FlashPort.program_pages]
  | cons offset rest ih =>
    unfold FlashPort.program_pages
    simp only
    split
    · next hok =>
      simp only [List.forall_mem_cons, ih, hok, refused, true_and]
    · next hok =>
      simp [hok, refused]

/-- The byte of the padded capsule at `i`. -/
def filled (capsule : List Byte) (i : ℕ) : Byte := if i < capsule.length then capsule.getD i 0 else 0xff

/-- The byte of a page, with erased bytes after the end of the capsule. -/
theorem page_getD (offset : ℕ) {k : ℕ} (hk : k < kProofPageBytes) :
    (page capsule offset).getD k 0 = filled capsule (offset + k) := by
  unfold page filled
  by_cases hin : offset + k < capsule.length
  · rw [if_pos hin, List.getD_append _ _ _ _ (by simp; omega), getD_take_of_lt _ (by omega), getD_drop]
  · rw [if_neg hin, List.getD_append_right _ _ _ _ (by simp; omega)]
    simp only [List.length_take, List.length_drop]
    rw [List.getD_eq_getElem _ _ (by simp; omega), List.getElem_replicate]

/-- **The pages of an honest port**: after `n` pages from page `j` on, each byte of theirs has
lost the bits that the padded capsule does not have, and no other byte has changed. -/
theorem program_pages_honest (honest : port.Honest) (j n : ℕ) (m : Memory)
    (hok : (port.program_pages (ι := ι) capsule m
      ((List.range' j n).map (· * kProofPageBytes))).1 = true) (i : ℕ) :
    (port.program_pages (ι := ι) capsule m
        ((List.range' j n).map (· * kProofPageBytes))).2.1 (slot_offset + i) =
      if j * kProofPageBytes ≤ i ∧ i < (j + n) * kProofPageBytes then
        m (slot_offset + i) &&& filled capsule i
      else m (slot_offset + i) := by
  induction n generalizing j m with
  | zero =>
    rw [if_neg (by rw [Nat.add_zero]; omega)]
    rfl
  | succ n ih =>
    rw [List.range'_succ, List.map_cons] at hok ⊢
    unfold FlashPort.program_pages at hok ⊢
    simp only at hok ⊢
    split at hok
    swap
    · cases hok
    next hpage =>
    rw [if_pos hpage]
    simp only
    rw [ih (j + 1) _ hok]
    have hlen := page_length capsule (j * kProofPageBytes)
    have hpos : 0 < kProofPageBytes := by decide
    have hnext : (j + 1) * kProofPageBytes = j * kProofPageBytes + kProofPageBytes := Nat.succ_mul _ _
    have hend : (j + 1 + n) * kProofPageBytes = (j + (n + 1)) * kProofPageBytes := by
      rw [Nat.add_right_comm, Nat.add_assoc]
    have hle : (j + 1) * kProofPageBytes ≤ (j + (n + 1)) * kProofPageBytes :=
      Nat.mul_le_mul_right _ (by omega)
    rw [hend]
    by_cases hhere : j * kProofPageBytes ≤ i ∧ i < (j + 1) * kProofPageBytes
    · -- the byte is in this page, and in no later one
      obtain ⟨k, rfl⟩ := Nat.exists_eq_add_of_le hhere.1
      have hk : k < kProofPageBytes := by omega
      rw [if_neg (by omega), if_pos (by omega), patched_inside _ _ (by omega)]
      have hbyte := honest.program m (slot_offset + j * kProofPageBytes)
        (page capsule (j * kProofPageBytes)) hpage k (by omega)
      rw [Nat.add_assoc] at hbyte
      rw [hbyte, page_getD capsule _ hk]
    · rw [patched_outside _ _ (by omega)]
      by_cases hlater : (j + 1) * kProofPageBytes ≤ i ∧ i < (j + (n + 1)) * kProofPageBytes
      · rw [if_pos hlater, if_pos (by omega)]
      · rw [if_neg hlater, if_neg (by omega)]

end Pages

/-! ## One installation -/

/-- What an installation does to the flash, whatever the port does. -/
structure Confined {ι : Type} (m : Memory) (report : InstallReport) (m' : Memory)
    (accesses : List (Hardware ι)) : Prop where
  outside : ∀ i, ¬ (0x200000 ≤ i ∧ i < 0x201000) → m' i = m i
  erases : ∀ offset size ok, .flash_erase offset size ok ∈ accesses →
    0x200000 ≤ offset ∧ offset + size ≤ 0x201000 ∧ offset % 4096 = 0 ∧ size % 4096 = 0
  programs : ∀ offset page ok, .flash_program offset page ok ∈ accesses →
    0x200000 ≤ offset ∧ offset + page.length ≤ 0x201000 ∧ offset % 256 = 0 ∧ page.length = 256
  /-- A `begin` that succeeds is followed by one `end`. -/
  ended : ∀ before after, accesses = before ++ .flash_begin true :: after →
    (after.countP fun x => x matches .flash_end) = 1
  untouched : report.slot_touched = false → m' = m

/-- What the report says: `ok` exactly if no call was refused, the slot can be read and the
sector holds what it should; and on an honest port it does. -/
structure Truthful {ι : Type} (port : FlashPort) (report : InstallReport) (m' : Memory)
    (accesses : List (Hardware ι)) (good : List Byte → Prop) : Prop where
  ok_iff : report.result = .ok ↔
    (∀ x ∈ accesses, refused x = false) ∧ port.mapped = true ∧ good m'.sector
  honest : port.Honest → (∀ x ∈ accesses, refused x = false) → good m'.sector

section Write

variable {ι : Type} (port : FlashPort) (m : Memory) {capsule : List Byte}

theorem mem_page_offsets {size offset : ℕ} (h : offset ∈ page_offsets size) :
    offset % 256 = 0 ∧ offset < size := by
  obtain ⟨j, hj, rfl⟩ := List.mem_map.mp h
  rw [List.mem_range] at hj
  simp only [kProofPageBytes] at hj ⊢
  omega

/-- Nothing outside the slot changes. -/
theorem write_slot_outside (hle : capsule.length ≤ kProofSectorBytes) {i : ℕ}
    (h : ¬ (0x200000 ≤ i ∧ i < 0x201000)) : (port.write_slot (ι := ι) m capsule).2.1 i = m i := by
  have herase : m.patched (port.erase m).2 slot_offset kProofSectorBytes i = m i :=
    patched_outside _ _ h
  unfold FlashPort.write_slot
  simp only
  split
  · exact herase
  · rw [program_pages_outside, herase]
    intro offset hmem hin
    obtain ⟨hmod, hlt⟩ := mem_page_offsets hmem
    have hslot : slot_offset = 0x200000 := rfl
    simp only [kProofPageBytes, kProofSectorBytes] at hin hle
    omega

/-- Every access between `begin` and `end` is the erase or a page. -/
theorem write_slot_accesses : ∀ x ∈ (port.write_slot (ι := ι) m capsule).2.2,
    (∃ ok, x = .flash_erase slot_offset kProofSectorBytes ok) ∨
      ∃ offset ∈ page_offsets capsule.length, ∃ ok,
        x = .flash_program (slot_offset + offset) (page capsule offset) ok := by
  intro x hx
  unfold FlashPort.write_slot at hx
  simp only at hx
  split at hx
  · exact .inl ⟨_, List.mem_singleton.mp hx⟩
  · rcases List.mem_cons.mp hx with rfl | hx
    · exact .inl ⟨_, rfl⟩
    · exact .inr (program_pages_accesses port capsule _ _ x hx)

/-- Writing succeeds exactly when the port refuses nothing. -/
theorem write_slot_ok_iff : (port.write_slot (ι := ι) m capsule).1 = .ok ↔
    ∀ x ∈ (port.write_slot (ι := ι) m capsule).2.2, refused x = false := by
  unfold FlashPort.write_slot
  simp only
  cases herase : (port.erase m).1 with
  | false => simp [refused]
  | true =>
    have hpages := program_pages_ok_iff (ι := ι) port capsule
      (m.patched (port.erase m).2 slot_offset kProofSectorBytes) (page_offsets capsule.length)
    have hfirst : refused (.flash_erase slot_offset kProofSectorBytes true : Hardware ι) = false := rfl
    simp only [Bool.not_true, Bool.false_eq_true, if_false, List.forall_mem_cons, hfirst, true_and]
    rw [← hpages]
    split
    · next hok => exact iff_of_true rfl hok
    · next hok => exact iff_of_false (by simp) hok

theorem ones_and (b : Byte) : 0xff &&& b = b := by
  apply UInt8.toBitVec_inj.mp
  rw [UInt8.toBitVec_and]
  exact BitVec.allOnes_and

/-- **On an honest port the sector is the capsule**, filled up with erased bytes. -/
theorem write_slot_honest (honest : port.Honest)
    (hok : (port.write_slot (ι := ι) m capsule).1 = .ok) :
    (port.write_slot (ι := ι) m capsule).2.1.sector = (List.range kProofSectorBytes).map (filled capsule) := by
  refine List.map_congr_left fun i hi => ?_
  rw [List.mem_range] at hi
  revert hok
  unfold FlashPort.write_slot
  simp only
  split
  · intro hbad
    cases hbad
  next herase =>
  have herased : m.patched (port.erase m).2 slot_offset kProofSectorBytes (slot_offset + i) = 0xff := by
    rw [patched_inside _ _ (by omega)]
    exact honest.erase m (by simpa using herase) i hi
  have hoffsets : page_offsets capsule.length = (List.range' 0
      ((capsule.length + (kProofPageBytes - 1)) / kProofPageBytes)).map (· * kProofPageBytes) := by
    rw [page_offsets, List.range_eq_range']
  rw [hoffsets]
  intro hok
  have hpages : (port.program_pages (ι := ι) capsule
      (m.patched (port.erase m).2 slot_offset kProofSectorBytes) ((List.range' 0
        ((capsule.length + (kProofPageBytes - 1)) / kProofPageBytes)).map (· * kProofPageBytes))).1 = true := by
    by_contra hno
    rw [if_neg hno] at hok
    cases hok
  rw [program_pages_honest port capsule honest 0 _ _ hpages i, herased]
  split
  · exact ones_and _
  · next hafter =>
    -- past the last page there is nothing of the capsule left
    rw [filled, if_neg]
    simp only [kProofPageBytes] at hafter
    omega

/-- In a list that starts with its only `x`, nothing is before `x`. -/
theorem after_first {α : Type} {x : α} {rest before after : List α} (hnot : x ∉ rest)
    (h : x :: rest = before ++ x :: after) : after = rest := by
  cases before with
  | nil => exact ((List.cons.inj h).2).symm
  | cons y before =>
    have hrest : rest = before ++ x :: after := (List.cons.inj h).2
    exact absurd (by rw [hrest]; simp) hnot

variable (accepts : Option (List Byte) → Bool)

/-- **No installation leaves the sector**, and it ends what it began. -/
theorem install_confined (hle : capsule.length ≤ kProofSectorBytes) :
    Confined (ι := ι) m (port.install (ι := ι) m capsule accepts).1 (port.install (ι := ι) m capsule accepts).2.1
      (port.install (ι := ι) m capsule accepts).2.2 := by
  have hwrites : ∀ x ∈ (port.write_slot (ι := ι) m capsule).2.2, _ := write_slot_accesses port m
  have houtside := fun i => write_slot_outside (ι := ι) port m hle (i := i)
  have hslot : slot_offset = 0x200000 := rfl
  -- the accesses are the writes and a few that write nothing
  have hall : ∀ tail : List (Hardware ι), (∀ x ∈ tail, ∃ bytes, x = .slot_data bytes) →
      ∀ m' report, m' = (port.write_slot (ι := ι) m capsule).2.1 → report.slot_touched = true →
      Confined m report m' (.flash_begin true ::
        ((port.write_slot (ι := ι) m capsule).2.2 ++ [.flash_end] ++ tail)) := by
    rintro tail htail m' report rfl htouched
    refine ⟨houtside, ?_, ?_, ?_, ?_⟩
    · intro offset size ok hmem
      simp only [List.mem_cons, List.mem_append, reduceCtorEq, List.not_mem_nil, or_false, false_or] at hmem
      rcases hmem with hmem | hmem
      · rcases hwrites _ hmem with ⟨ok', heq⟩ | ⟨o, _, ok', heq⟩
        · cases heq
          decide
        · cases heq
      · obtain ⟨bytes, heq⟩ := htail _ hmem
        cases heq
    · intro offset page ok hmem
      simp only [List.mem_cons, List.mem_append, reduceCtorEq, List.not_mem_nil, or_false, false_or] at hmem
      rcases hmem with hmem | hmem
      · rcases hwrites _ hmem with ⟨ok', heq⟩ | ⟨o, ho, ok', heq⟩
        · cases heq
        · cases heq
          obtain ⟨hmod, hlt⟩ := mem_page_offsets ho
          have hlen : (Managed.page capsule o).length = 256 := page_length capsule o
          have hroom : capsule.length ≤ 4096 := hle
          refine ⟨?_, ?_, ?_, hlen⟩
          · rw [hslot]
            omega
          · rw [hslot, hlen]
            omega
          · rw [hslot]
            omega
      · obtain ⟨bytes, heq⟩ := htail _ hmem
        cases heq
    · intro before after heq
      have hafter := after_first (by
        simp only [List.mem_append, List.mem_singleton, reduceCtorEq, or_false]
        rintro (hmem | hmem)
        · rcases hwrites _ hmem with ⟨ok', hno⟩ | ⟨o, _, ok', hno⟩ <;> cases hno
        · obtain ⟨bytes, hno⟩ := htail _ hmem
          cases hno) heq
      have hnowrites : ((port.write_slot (ι := ι) m capsule).2.2.countP fun x => x matches .flash_end) = 0 := by
        refine List.countP_eq_zero.mpr fun x hx => ?_
        rcases hwrites x hx with ⟨ok', rfl⟩ | ⟨o, _, ok', rfl⟩ <;> simp
      have hnotail : (tail.countP fun x => x matches .flash_end) = 0 := by
        refine List.countP_eq_zero.mpr fun x hx => ?_
        obtain ⟨bytes, rfl⟩ := htail x hx
        simp
      rw [hafter, List.countP_append, List.countP_append, hnowrites, hnotail]
      rfl
    · intro hno
      rw [htouched] at hno
      cases hno
  unfold FlashPort.install
  split
  · refine ⟨fun _ _ => rfl, ?_, ?_, ?_, fun _ => rfl⟩
    · intro offset size ok hmem
      cases List.mem_singleton.mp hmem
    · intro offset page ok hmem
      cases List.mem_singleton.mp hmem
    · intro before after heq
      have hmem : Hardware.flash_begin true ∈ ([.flash_begin false] : List (Hardware ι)) := by
        simp only at heq
        rw [heq]
        simp
      cases List.mem_singleton.mp hmem
  simp only
  split
  · have h := hall [] (by simp) _ ⟨(port.write_slot (ι := ι) m capsule).1, true⟩ rfl rfl
    rw [List.append_nil] at h
    exact h
  · exact hall [.slot_data (port.slot_data (port.write_slot (ι := ι) m capsule).2.1)]
      (by simp) _ _ rfl rfl

/-- **The report is true**, where what is read back is asked for what the sector should hold. -/
theorem install_truthful (good : List Byte → Prop) (hnone : accepts none = false)
    (hgood : ∀ m : Memory, accepts (some m.sector) = true ↔ good m.sector)
    (hfilled : good ((List.range kProofSectorBytes).map (filled capsule))) :
    Truthful port (port.install (ι := ι) m capsule accepts).1 (port.install (ι := ι) m capsule accepts).2.1
      (port.install (ι := ι) m capsule accepts).2.2 good := by
  have hwrites : (port.write_slot (ι := ι) m capsule).1 = .ok ↔ _ := write_slot_ok_iff port m
  have hhonest : port.Honest → (port.write_slot (ι := ι) m capsule).1 = .ok → _ := write_slot_honest port m
  unfold FlashPort.install
  split
  · refine ⟨?_, ?_⟩
    · simp [refused]
    · intro _ hall
      have hno := hall (.flash_begin false) (by simp)
      cases hno
  simp only
  -- whatever is read back, the writes alone can be refused
  have hrefused : ∀ tail : List (Hardware ι), (∀ x ∈ tail, refused x = false) →
      ((∀ x ∈ Hardware.flash_begin true :: (port.write_slot (ι := ι) m capsule).2.2 ++ [.flash_end] ++ tail,
        refused x = false) ↔ (port.write_slot (ι := ι) m capsule).1 = .ok) := by
    intro tail htail
    rw [hwrites]
    constructor
    · intro h x hx
      exact h x (by simp [hx])
    · intro h x hx
      simp only [List.cons_append, List.mem_cons, List.mem_append, List.not_mem_nil, or_false] at hx
      rcases hx with rfl | (hx | rfl) | hx
      · rfl
      · exact h x hx
      · rfl
      · exact htail x hx
  split
  · next hbad =>
    have hno : ¬ ∀ x ∈ Hardware.flash_begin true :: (port.write_slot (ι := ι) m capsule).2.2 ++ [.flash_end],
        refused x = false := by
      intro hall
      have hall' := (hrefused [] (by simp)).mp (by rw [List.append_nil]; exact hall)
      exact hbad hall'
    refine ⟨iff_of_false hbad fun h => hno h.1, fun _ hall => absurd hall hno⟩
  · next hok =>
    rw [not_not] at hok
    have hall := (hrefused [.slot_data (port.slot_data (port.write_slot (ι := ι) m capsule).2.1)]
      (by simp [refused])).mpr hok
    refine ⟨?_, ?_⟩
    · cases hmapped : port.mapped with
      | false => simp [FlashPort.slot_data, hmapped, hnone]
      | true =>
        have hg := hgood (port.write_slot (ι := ι) m capsule).2.1
        simp only [FlashPort.slot_data, hmapped, if_true] at hall ⊢
        rw [← hg]
        constructor
        · intro h
          refine ⟨hall, trivial, ?_⟩
          by_contra hno
          rw [if_neg hno] at h
          cases h
        · intro h
          rw [if_pos h.2.2]
    · intro honest _
      rw [hhonest honest hok]
      exact hfilled

end Write

/-! ## The answers in advance

A port answers as some board does, and then the installers are those of `Firmingo.Install` and
`Firmingo.StatefulRuntime`. -/

section Board

variable {ι : Type} (port : FlashPort) (capsule : List Byte)

/-- The page loop only asks about its own offsets. -/
theorem program_pages_congr {program program' : ℕ → Bool} {offsets : List ℕ}
    (h : ∀ offset ∈ offsets, program offset = program' offset) :
    program_pages (ι := ι) program capsule offsets = program_pages program' capsule offsets := by
  induction offsets with
  | nil => rfl
  | cons offset rest ih =>
    rw [program_pages, program_pages, h offset (by simp), ih fun o ho => h o (by simp [ho])]

/-- The answers of a real port make a board of the abstract installer. -/
theorem program_pages_answers (m : Memory) {offsets : List ℕ} (hnodup : offsets.Nodup) :
    ∃ program, program_pages (ι := ι) program capsule offsets
      = ((port.program_pages (ι := ι) capsule m offsets).1,
        (port.program_pages (ι := ι) capsule m offsets).2.2) := by
  induction offsets generalizing m with
  | nil => exact ⟨fun _ => true, rfl⟩
  | cons offset rest ih =>
    rw [List.nodup_cons] at hnodup
    obtain ⟨program, hprogram⟩ := ih (m.patched
      (port.program m (slot_offset + offset) (page capsule offset)).2 (slot_offset + offset)
      (page capsule offset).length) hnodup.2
    refine ⟨Function.update program offset
      (port.program m (slot_offset + offset) (page capsule offset)).1, ?_⟩
    have hrest : program_pages (ι := ι) (Function.update program offset
        (port.program m (slot_offset + offset) (page capsule offset)).1) capsule rest
        = program_pages program capsule rest := by
      refine program_pages_congr capsule fun o ho => ?_
      exact Function.update_of_ne (by rintro rfl; exact hnodup.1 ho) _ _
    rw [program_pages, hrest, hprogram, Function.update_self, FlashPort.program_pages]
    simp only
    split <;> rfl

theorem page_offsets_nodup (size : ℕ) : (page_offsets size).Nodup := by
  refine List.nodup_range.map ?_
  intro a b hab
  exact Nat.eq_of_mul_eq_mul_right (by decide) hab

/-- The board that answers as the port does. -/
theorem exists_board (m : Memory) : ∃ board : Board, board.flash_begin = port.begin ∧
    write_slot (ι := ι) board capsule
      = ((port.write_slot (ι := ι) m capsule).1, (port.write_slot (ι := ι) m capsule).2.2) ∧
    board.installed = port.slot_data (port.write_slot (ι := ι) m capsule).2.1 := by
  obtain ⟨program, hprogram⟩ := program_pages_answers (ι := ι) port capsule
    (m.patched (port.erase m).2 slot_offset kProofSectorBytes) (page_offsets_nodup capsule.length)
  refine ⟨⟨true, true, port.begin, (port.erase m).1, program,
    port.slot_data (port.write_slot (ι := ι) m capsule).2.1, none⟩, rfl, ?_, rfl⟩
  unfold write_slot FlashPort.write_slot
  simp only [hprogram]
  split <;> rfl

/-- **The installers are those of the model with given answers.** -/
theorem install_answers (m : Memory) :
    (∀ stage owner api, ∃ board, install_verified_capsule stage owner api board
      = ((install_verified_capsule_on port m stage owner api).1,
        (install_verified_capsule_on port m stage owner api).2.2)) ∧
    ∀ (p : Stateful.Replacement) (r : Stateful.Runtime), ∃ board,
      p.install r board = ((p.install_on r port m).1, (p.install_on r port m).2.2) := by
  refine ⟨?_, ?_⟩
  · intro stage owner api
    unfold install_verified_capsule install_verified_capsule_on
    cases hcapsule : stage.verified_capsule owner with
    | none => exact ⟨granting, rfl⟩
    | some capsule =>
      obtain ⟨board, hbegin, hwrite, hinstalled⟩ := exists_board (ι := ImageInfo) port capsule m
      refine ⟨board, ?_⟩
      simp only [FlashPort.install, hbegin, hwrite, hinstalled]
      cases validate_image (some capsule) capsule.length api <;>
        (simp only; split_ifs <;> rfl)
  · intro p r
    obtain ⟨board, hbegin, hwrite, hinstalled⟩ := exists_board (ι := Stateful.Started) port p.capsule m
    refine ⟨board, ?_⟩
    unfold Stateful.Replacement.install Stateful.Replacement.install_on
    simp only [FlashPort.install, hbegin, hwrite, hinstalled]
    simp only [Bool.or_eq_true, Bool.not_eq_true', Bool.and_eq_true]
    split_ifs <;> first | rfl | simp_all

end Board

/-! ## The two installers -/

/-- The stage holds a capsule that was verified for this owner and this resident. -/
structure CapsuleStage.HoldsVerified (stage : CapsuleStage) (owner : UInt32) (api : ℕ)
    (capsule : List Byte) : Prop where
  verified : stage.verified_capsule owner = some capsule
  size_gt : kCodeOffset < capsule.length
  size_le : capsule.length ≤ kProofStageBytes
  image : ∃ info, validate_image (some capsule) capsule.length api = .ok info ∧
    capsule.length = kCodeOffset + info.code_bytes

/-- The snapshot is an image for the resident, as `request` and `poll` check. -/
structure Stateful.Replacement.HoldsVerified (p : Stateful.Replacement) (r : Stateful.Runtime) : Prop where
  room : p.snapshot.length = Stateful.kMaximumCapsuleBytes
  image : ∃ info, Stateful.validate_image (some p.capsule) p.bytes r.contract = .ok info

theorem sector_length (m : Memory) : m.sector.length = kProofSectorBytes := by
  simp [Memory.sector]

theorem filled_take (capsule : List Byte) (hle : capsule.length ≤ kProofSectorBytes) :
    ((List.range kProofSectorBytes).map (filled capsule)).take capsule.length = capsule := by
  apply List.ext_getElem
  · simp [hle]
  · intro i hi hi'
    simp [filled, hi']

theorem filled_drop (capsule : List Byte) :
    ∀ b ∈ ((List.range kProofSectorBytes).map (filled capsule)).drop capsule.length, b = 0xff := by
  intro b hb
  obtain ⟨i, hi, rfl⟩ := List.getElem_of_mem hb
  simp [filled]

/-- A sector that starts with a capsule is accepted like the capsule. -/
theorem validate_image_sector {sector capsule : List Byte} {api : ℕ} {info : ImageInfo}
    (hsame : sector.take capsule.length = capsule) (hle : capsule.length ≤ kProofSectorBytes)
    (hvalid : validate_image (some capsule) capsule.length api = .ok info)
    (hsize : capsule.length = kCodeOffset + info.code_bytes) :
    validate_image (some sector) kProofSectorBytes api = .ok info := by
  rw [validate_image_eq_ok] at hvalid ⊢
  obtain ⟨hroom, hheader, hfits, hhash⟩ := hvalid
  have hfront : sector.take kCodeOffset = capsule.take kCodeOffset := by
    rw [← hsame, List.take_take, min_eq_left (by omega)]
  have hcode : (sector.drop kCodeOffset).take info.code_bytes
      = (capsule.drop kCodeOffset).take info.code_bytes := by
    rw [← hsame, List.drop_take, List.take_take, hsize, Nat.add_sub_cancel_left, min_self]
  rw [hfront, hcode]
  exact ⟨le_trans hroom hle, hheader, by omega, hhash⟩

/-- The FMS1 installer stays in its sector and reports what is in it. -/
theorem install_fms1 (port : FlashPort) (m : Memory) {stage : CapsuleStage} {owner : UInt32} {api : ℕ}
    {capsule : List Byte} (h : stage.HoldsVerified owner api capsule) :
    Confined m (install_verified_capsule_on port m stage owner api).1
        (install_verified_capsule_on port m stage owner api).2.1
        (install_verified_capsule_on port m stage owner api).2.2 ∧
      Truthful port (install_verified_capsule_on port m stage owner api).1
        (install_verified_capsule_on port m stage owner api).2.1
        (install_verified_capsule_on port m stage owner api).2.2
        (fun sector => sector.take capsule.length = capsule) := by
  obtain ⟨info, hvalid, hsize⟩ := h.image
  have hle : capsule.length ≤ kProofSectorBytes := h.size_le
  have hrun : install_verified_capsule_on port m stage owner api = port.install m capsule fun written =>
      read_back written capsule (validate_image written kProofSectorBytes api).isOk := by
    unfold install_verified_capsule_on
    rw [h.verified]
    simp only [hvalid]
    rw [if_neg]
    simp only [Bool.or_eq_true, decide_eq_true_eq, Bool.not_eq_true', decide_eq_false_iff_not, not_or,
      not_lt, not_le, not_not]
    exact ⟨⟨hle, h.size_gt⟩, hsize⟩
  rw [hrun]
  refine ⟨install_confined port m _ hle, install_truthful port m _ _ rfl ?_ (filled_take capsule hle)⟩
  intro m'
  simp only [read_back, Bool.and_eq_true, decide_eq_true_eq]
  refine ⟨fun hread => hread.1, fun hsame => ⟨hsame, ?_⟩⟩
  rw [validate_image_sector hsame hle hvalid hsize]
  rfl

/-- The FMS2 installer, which also checks that the rest of the sector is erased. -/
theorem install_fms2 (port : FlashPort) (m : Memory) {p : Stateful.Replacement} {r : Stateful.Runtime}
    (h : p.HoldsVerified r) :
    Confined m (p.install_on r port m).1 (p.install_on r port m).2.1 (p.install_on r port m).2.2 ∧
      Truthful port (p.install_on r port m).1 (p.install_on r port m).2.1 (p.install_on r port m).2.2
        (fun sector => sector.take p.bytes = p.capsule ∧ ∀ b ∈ sector.drop p.bytes, b = 0xff) := by
  obtain ⟨info, hvalid⟩ := h.image
  have hbytes : p.bytes ≤ kProofSectorBytes := by
    obtain ⟨hcontract, _, hmax, _⟩ := (Stateful.validate_image_eq_ok _ _ _ _).mp hvalid
    simp only [Stateful.valid_contract, Bool.and_eq_true, decide_eq_true_eq] at hcontract
    exact hmax.trans hcontract.2
  have hlen : p.capsule.length = p.bytes := by
    rw [Stateful.Replacement.capsule, List.length_take, h.room]
    exact min_eq_left hbytes
  unfold Stateful.Replacement.install_on
  refine ⟨install_confined port m _ (by rw [hlen]; exact hbytes), install_truthful port m _ _ rfl ?_ ?_⟩
  · intro m'
    -- the check runs over the indices of the tail
    have htail : Stateful.Replacement.erased_tail m'.sector p.bytes = true ↔
        ∀ b ∈ m'.sector.drop p.bytes, b = 0xff := by
      simp only [Stateful.Replacement.erased_tail, List.all_eq_true, List.mem_range, decide_eq_true_eq]
      constructor
      · intro hall b hb
        obtain ⟨i, hi, rfl⟩ := List.getElem_of_mem hb
        rw [List.length_drop, sector_length] at hi
        rw [List.getElem_drop, ← List.getD_eq_getElem _ 0]
        exact hall i hi
      · intro hall i hi
        have hlt : p.bytes + i < m'.sector.length := by
          rw [sector_length]
          omega
        rw [List.getD_eq_getElem _ _ hlt]
        refine hall _ (List.mem_of_getElem (i := i) (h := ?_) ?_)
        · rw [List.length_drop]
          omega
        · rw [List.getElem_drop]
    simp only [Option.getD_some, Bool.and_eq_true, htail, read_back, decide_eq_true_eq, hlen]
    constructor
    · exact fun hread => ⟨hread.1.1, hread.2⟩
    · rintro ⟨hsame, herased⟩
      refine ⟨⟨hsame, ?_⟩, herased⟩
      rw [Stateful.Replacement.accepts, hsame, hvalid]
      rfl
  · have htake := filled_take p.capsule (by rw [hlen]; exact hbytes)
    have hdrop := filled_drop p.capsule
    rw [hlen] at htake hdrop
    exact ⟨htake, hdrop⟩

/-- **The installers touch one sector and report truthfully.** For every verified capsule, in an
FMS1 stage or an FMS2 snapshot, and every flash port, whose calls may report what they like and
leave anything in their own range: no byte outside the sector changes; every erase and program
is aligned and inside it; a `begin` that succeeds is followed by one `end`; the slot is reported
untouched only if the flash is as it was; and the result is `ok` exactly if no call was refused,
the slot can be read and the sector starts with the capsule (for FMS2, with erased bytes after
it), which it does on a port whose successful calls erase and clear bits as they should. -/
theorem installers_touch_one_sector (port : FlashPort) (m : Memory) :
    (∀ (stage : CapsuleStage) (owner : UInt32) (api : ℕ) (capsule : List Byte),
      stage.HoldsVerified owner api capsule →
        Confined m (install_verified_capsule_on port m stage owner api).1
            (install_verified_capsule_on port m stage owner api).2.1
            (install_verified_capsule_on port m stage owner api).2.2 ∧
          Truthful port (install_verified_capsule_on port m stage owner api).1
            (install_verified_capsule_on port m stage owner api).2.1
            (install_verified_capsule_on port m stage owner api).2.2
            (fun sector => sector.take capsule.length = capsule)) ∧
    ∀ (p : Stateful.Replacement) (r : Stateful.Runtime), p.HoldsVerified r →
      Confined m (p.install_on r port m).1 (p.install_on r port m).2.1 (p.install_on r port m).2.2 ∧
        Truthful port (p.install_on r port m).1 (p.install_on r port m).2.1 (p.install_on r port m).2.2
          (fun sector => sector.take p.bytes = p.capsule ∧ ∀ b ∈ sector.drop p.bytes, b = 0xff) :=
  ⟨fun _ _ _ _ h => install_fms1 port m h, fun _ _ h => install_fms2 port m h⟩

/-- A port that does what it is asked. -/
def obedient : FlashPort where
  begin := true
  erase _ := (true, fun _ => 0xff)
  program m offset page := (true, fun i => m i &&& page.getD (i - offset) 0)
  mapped := true

theorem obedient_honest : obedient.Honest := by
  refine ⟨fun _ _ _ _ => rfl, ?_⟩
  intro m offset page _ k _
  simp [obedient]

/-- The stage holds the sample image, verified. -/
theorem sample_image_verified :
    (CapsuleStage.staging 7 0x10000100 sample_image [sample_image]).2.HoldsVerified 7 0x10000100
      sample_image := by
  obtain ⟨info, hvalid⟩ := exists_of_isOk
    (show (validate_image (some sample_image) sample_image.length 0x10000100).isOk = true by
      decide +kernel)
  have hheader := ((validate_image_eq_ok _ _ _ _).mp hvalid).2.1
  refine ⟨by decide +kernel, by decide +kernel, by decide +kernel, info, hvalid, ?_⟩
  rw [← hheader.code_bytes]
  decide +kernel

/-- A snapshot that holds the sample image of FMS2, and a resident it is for. -/
def sample_replacement : Stateful.Replacement where
  snapshot := sample_stateful_image ++
    List.replicate (Stateful.kMaximumCapsuleBytes - sample_stateful_image.length) 0
  bytes := sample_stateful_image.length

def sample_runtime : Stateful.Runtime where
  contract := sample_contract
  generation := { arena := ⟨none, 0⟩ }

theorem sample_replacement_verified : sample_replacement.HoldsVerified sample_runtime := by
  have hcapsule : sample_replacement.capsule = sample_stateful_image := List.take_left
  obtain ⟨info, hvalid⟩ := exists_of_isOk
    (show (Stateful.validate_image (some sample_stateful_image) sample_stateful_image.length
      sample_contract).isOk = true by decide +kernel)
  refine ⟨by decide +kernel, info, ?_⟩
  rw [hcapsule]
  exact hvalid

/-- Both sample images are installed by that port, where the flash was all zeros. -/
theorem installers_touch_one_sector_sample :
    (install_verified_capsule_on obedient (fun _ => 0)
      (CapsuleStage.staging 7 0x10000100 sample_image [sample_image]).2 7 0x10000100).1.result = .ok ∧
    (sample_replacement.install_on sample_runtime obedient fun _ => 0).1.result = .ok := by
  obtain ⟨hfms1, hfms2⟩ := installers_touch_one_sector obedient fun _ => 0
  constructor
  · obtain ⟨-, htruthful⟩ := hfms1 _ 7 0x10000100 sample_image sample_image_verified
    have hall : ∀ x ∈ (install_verified_capsule_on obedient (fun _ => 0)
        (CapsuleStage.staging 7 0x10000100 sample_image [sample_image]).2 7 0x10000100).2.2,
        refused x = false := by
      decide +kernel
    exact htruthful.ok_iff.mpr ⟨hall, rfl, htruthful.honest obedient_honest hall⟩
  · obtain ⟨-, htruthful⟩ := hfms2 sample_replacement sample_runtime sample_replacement_verified
    have hall : ∀ x ∈ (sample_replacement.install_on sample_runtime obedient fun _ => 0).2.2,
        refused x = false := by
      decide +kernel
    exact htruthful.ok_iff.mpr ⟨hall, rfl, htruthful.honest obedient_honest hall⟩

end Firmingo.Managed
