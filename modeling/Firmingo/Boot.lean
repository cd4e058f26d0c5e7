/-
Booting from the slot after a whole or an interrupted installation.

The installers validate a capsule in RAM, of exactly its own length. A boot has only the
slot: it takes the length from the header and finds erased bytes, half a capsule or whatever
else behind it. The header is the first page, so a slot with a header has the capsule's own,
and its hash covers every other byte that counts.
-/
import Firmingo.Capsules
import Firmingo.FlashSafety
import Firmingo.StatefulRuntime

set_option autoImplicit false

open Octets

namespace Firmingo.Managed

/-! ## The slot as flash memory -/

/-- The sketch slot. -/
structure Slot where
  bytes : List Byte
  length : bytes.length = kSlotBytes

/-- What an access that succeeds does to the slot: erased bytes are all ones, and
programming can only clear bits. -/
def flashed {ι : Type} (slot : List Byte) : Hardware ι → List Byte
  | .flash_erase offset size true => copy_at slot (offset - slot_offset) (List.replicate size 0xff)
  | .flash_program offset page true =>
    let old := slot.drop (offset - slot_offset)
    copy_at slot (offset - slot_offset) (List.zipWith (fun was now => was &&& now) old page)
  | _ => slot

/-- Hardware that grants everything it is asked. -/
def granting : Board where
  request := true
  parked := true
  flash_begin := true
  erase := true
  program _ := true
  installed := none
  slot := none

/-- How many pages the installer programs. -/
def page_count (capsule : List Byte) : ℕ := (page_offsets capsule.length).length

/-- The slot after the erase and the first `j` page programs of the installer. -/
def slot_after (slot : Slot) (capsule : List Byte) (j : ℕ) : List Byte :=
  ((write_slot (ι := Unit) granting capsule).2.take (j + 1)).foldl flashed slot.bytes

/-! ## What is in the slot -/

theorem page_length (capsule : List Byte) (offset : ℕ) : (page capsule offset).length = kProofPageBytes := by
  simp only [page, List.length_append, List.length_take, List.length_drop, List.length_replicate,
    kProofPageBytes]
  omega

/-- Programming erased bytes writes the page. -/
theorem zipWith_erased (page rest : List Byte) {n : ℕ} (hn : page.length ≤ n) :
    List.zipWith (fun was now => was &&& now) (List.replicate n 0xff ++ rest) page = page := by
  induction page generalizing n with
  | nil => simp
  | cons b page ih =>
    obtain ⟨m, rfl⟩ : ∃ m, n = m + 1 := ⟨n - 1, by rw [List.length_cons] at hn; omega⟩
    rw [List.replicate_succ, List.cons_append, List.zipWith_cons_cons,
      ih (by rw [List.length_cons] at hn; omega)]
    congr 1
    apply UInt8.toBitVec_inj.mp
    rw [UInt8.toBitVec_and]
    exact BitVec.allOnes_and

/-- One more page. -/
theorem flashed_program {ι : Type} (front rest page : List Byte) {n k : ℕ} (hk : front.length = k)
    (hn : page.length ≤ n) :
    flashed (front ++ List.replicate n 0xff ++ rest) (.flash_program (ι := ι) (slot_offset + k) page true)
      = front ++ page ++ List.replicate (n - page.length) 0xff ++ rest := by
  simp only [flashed, Nat.add_sub_cancel_left, copy_at]
  rw [List.append_assoc front, ← hk, List.drop_left, zipWith_erased page rest hn, List.take_left,
    List.append_assoc front page, List.append_assoc front, ← List.drop_drop, List.drop_left,
    List.drop_append_of_le_length (by rw [List.length_replicate]; exact hn), List.drop_replicate]
  simp only [List.append_assoc]

theorem page_offsets_getElem {n j : ℕ} (hj : j < (page_offsets n).length) :
    (page_offsets n)[j] = j * kProofPageBytes := by
  simp [page_offsets]

variable {capsule : List Byte}

theorem pages_fit (hle : capsule.length ≤ kProofSectorBytes) :
    page_count capsule * kProofPageBytes ≤ kProofSectorBytes := by
  simp only [page_count, page_offsets, List.length_map, List.length_range, kProofPageBytes,
    kProofSectorBytes] at hle ⊢
  omega

/-- The accesses of an installation that is granted everything. -/
theorem write_slot_granting {ι : Type} (capsule : List Byte) :
    (write_slot (ι := ι) granting capsule).2 = .flash_erase slot_offset kProofSectorBytes true ::
      programmed capsule (page_offsets capsule.length) := by
  have hpages : ∀ offsets, program_pages (ι := ι) granting.program capsule offsets
      = (true, programmed capsule offsets) := by
    intro offsets
    induction offsets with
    | nil => rfl
    | cons offset offsets ih => simp [program_pages, granting, programmed] at ih ⊢; simp [ih]
  rw [write_slot, hpages]
  rfl

/-- **The slot after some pages**: those pages, the rest of the sector erased, and what
follows the sector. -/
theorem slot_after_eq (slot : Slot) (hle : capsule.length ≤ kProofSectorBytes)
    {j : ℕ} (hj : j ≤ page_count capsule) :
    slot_after slot capsule j = ((page_offsets capsule.length).take j).flatMap (page capsule)
      ++ List.replicate (kProofSectorBytes - j * kProofPageBytes) 0xff
      ++ slot.bytes.drop kProofSectorBytes := by
  have hfit := pages_fit hle
  unfold slot_after
  rw [write_slot_granting, List.take_succ_cons, List.foldl_cons]
  induction j with
  | zero => simp [programmed, flashed, copy_at]
  | succ j ih =>
    have hlt : j < (page_offsets capsule.length).length := hj
    have hroom : (j + 1) * kProofPageBytes ≤ kProofSectorBytes :=
      le_trans (Nat.mul_le_mul_right _ hj) hfit
    have hfront : (((page_offsets capsule.length).take j).flatMap (page capsule)).length
        = j * kProofPageBytes := by
      simp [List.length_flatMap, page_length, min_eq_left hlt.le]
    rw [Nat.succ_mul] at hroom
    rw [programmed, ← List.map_take, List.take_succ_eq_append_getElem hlt, List.map_append,
      List.foldl_append, List.map_take, ← programmed, ih (by omega), List.map_singleton,
      List.foldl_cons, List.foldl_nil, page_offsets_getElem hlt,
      flashed_program _ _ _ hfront (by rw [page_length]; omega), page_length,
      List.flatMap_append, List.flatMap_singleton, Nat.succ_mul, Nat.sub_sub]

/-- The header is the first page. -/
theorem slot_after_header (slot : Slot) (hlow : kCodeOffset ≤ capsule.length)
    (hle : capsule.length ≤ kProofSectorBytes) {j : ℕ} (hpos : 0 < j) (hj : j ≤ page_count capsule) :
    (slot_after slot capsule j).take kCodeOffset = capsule.take kCodeOffset := by
  obtain ⟨i, rfl⟩ : ∃ i, j = i + 1 := ⟨j - 1, by omega⟩
  have hfirst : page capsule 0 = capsule.take kCodeOffset := by
    simp only [kCodeOffset] at hlow
    simp [page, kProofPageBytes, kCodeOffset, min_eq_right hlow]
  have hoffsets : ∃ rest, page_offsets capsule.length = 0 :: rest := by
    cases hoff : page_offsets capsule.length with
    | nil => simp [page_count, hoff] at hj
    | cons x rest =>
      have hx := page_offsets_getElem (n := capsule.length) (j := 0) (by simp [hoff])
      simp only [hoff, List.getElem_cons_zero, Nat.zero_mul] at hx
      exact ⟨rest, by rw [hx]⟩
  obtain ⟨rest, hrest⟩ := hoffsets
  rw [slot_after_eq slot hle hj, hrest, List.take_succ_cons, List.flatMap_cons, hfirst,
    List.append_assoc, List.append_assoc,
    List.take_append_of_le_length (by rw [List.length_take]; omega), List.take_take, min_self]

/-- The slot of a whole installation starts with the capsule. -/
theorem slot_after_whole (slot : Slot) (hle : capsule.length ≤ kProofSectorBytes) :
    (slot_after slot capsule (page_count capsule)).take capsule.length = capsule := by
  obtain ⟨fill, _, hjoin⟩ := pages_join capsule
  rw [slot_after_eq slot hle (le_refl _), page_count, List.take_length, hjoin, List.append_assoc,
    List.append_assoc, List.take_left]

/-- An erased slot has no header. -/
theorem slot_after_erased (slot : Slot) (hle : capsule.length ≤ kProofSectorBytes) :
    (slot_after slot capsule 0).take 4 = List.replicate 4 0xff := by
  rw [slot_after_eq slot hle (Nat.zero_le _), List.take_zero, List.flatMap_nil, List.nil_append,
    Nat.zero_mul, Nat.sub_zero, List.take_append_of_le_length (by rw [List.length_replicate]; decide),
    List.take_replicate]
  rfl

/-! ## The hash -/

/-- Two different byte strings with one digest. -/
def Collision (x y : List Byte) : Prop := x ≠ y ∧ sha256 x = sha256 y

/-- What follows the header of an image, up to the length of the capsule. -/
def code_of (image capsule : List Byte) : List Byte :=
  (image.drop kCodeOffset).take (capsule.length - kCodeOffset)

/-- An image with the capsule's header and the capsule's hash is the capsule, or it has a
collision in it. -/
theorem same_or_collision {image : List Byte} (hlow : kCodeOffset ≤ capsule.length)
    (hheader : image.take kCodeOffset = capsule.take kCodeOffset)
    (hhash : sha256 (code_of image capsule) = sha256 (capsule.drop kCodeOffset)) :
    image.take capsule.length = capsule ∨
      Collision (code_of image capsule) (capsule.drop kCodeOffset) := by
  by_cases hcode : code_of image capsule = capsule.drop kCodeOffset
  · refine .inl ?_
    have hsplit : capsule.length = kCodeOffset + (capsule.length - kCodeOffset) := by omega
    rw [hsplit, List.take_add, hheader, ← code_of, hcode, List.take_append_drop]
  · exact .inr ⟨hcode, hhash⟩

/-- The code of the capsule itself. -/
theorem code_of_self {image : List Byte} (hsame : image.take capsule.length = capsule) :
    code_of image capsule = capsule.drop kCodeOffset := by
  rw [code_of, ← List.drop_take, hsame]

/-! ## FMS1 -/

/-- A capsule that the stage of a resident takes, in some pieces. -/
structure StageAccepts (api : ℕ) (capsule : List Byte) : Prop where
  api_ne : api ≠ 0
  staged : ∃ owner pieces, owner ≠ 0 ∧ (∀ piece ∈ pieces, piece ≠ []) ∧ pieces.flatten = capsule ∧
    CapsuleStage.Stages owner api capsule pieces

/-- What the stage has checked. -/
theorem StageAccepts.valid {api : ℕ} (h : StageAccepts api capsule) :
    kCodeOffset < capsule.length ∧ capsule.length ≤ kProofSectorBytes ∧
    ∃ info, validate_image (some capsule) capsule.length api = .ok info ∧
      capsule.length = kCodeOffset + info.code_bytes := by
  obtain ⟨owner, pieces, howner, hne, hflat, hstages⟩ := h.staged
  exact (CapsuleStage.stages_iff howner h.api_ne hne hflat).mp hstages

/-- What a boot does with the slots of an installation: it takes the complete one as the
installation did, and any other only if it is complete all the same, or has a collision. -/
structure BootsAs {ι : Type} (boot : List Byte → Option ι) (slot : Slot) (capsule : List Byte)
    (installed : ι) : Prop where
  complete : boot (slot_after slot capsule (page_count capsule)) = some installed
  interrupted : ∀ j ≤ page_count capsule, (boot (slot_after slot capsule j)).isSome = true →
    (slot_after slot capsule j).take capsule.length = capsule ∨
      Collision (code_of (slot_after slot capsule j) capsule) (capsule.drop kCodeOffset)

/-- The boot of an FMS1 resident. -/
def boot_fms1 (api : ℕ) (slot : List Byte) : Option ImageInfo :=
  (validate_image (some slot) kSlotBytes api).toOption

/-- An FMS1 capsule that the stage accepts is started by the next boot as it was installed. -/
theorem boots_as_fms1 (slot : Slot) {api : ℕ} (h : StageAccepts api capsule) :
    ∃ info, validate_image (some capsule) capsule.length api = .ok info ∧
      BootsAs (boot_fms1 api) slot capsule info := by
  obtain ⟨hlow, hle, info, hvalid, hsize⟩ := h.valid
  obtain ⟨_, hheader, _, hhash⟩ := (validate_image_eq_ok _ _ _ _).mp hvalid
  have hcode : (capsule.drop kCodeOffset).take info.code_bytes = capsule.drop kCodeOffset := by
    rw [List.take_of_length_le]
    rw [List.length_drop]
    omega
  have hbytes : info.code_bytes = capsule.length - kCodeOffset := by omega
  rw [hcode] at hhash
  refine ⟨info, hvalid, ?_, ?_⟩
  · have hsame := slot_after_whole slot hle
    have hfirst : (slot_after slot capsule (page_count capsule)).take kCodeOffset
        = capsule.take kCodeOffset := by
      have hcut := congrArg (List.take kCodeOffset) hsame
      rwa [List.take_take, min_eq_left hlow.le] at hcut
    have hboot : validate_image (some (slot_after slot capsule (page_count capsule))) kSlotBytes api
        = .ok info := by
      rw [validate_image_eq_ok]
      refine ⟨by decide, ?_, hheader.code_le, ?_⟩
      · rw [hfirst]
        exact hheader
      · rw [hfirst, hbytes, ← code_of, code_of_self hsame]
        exact hhash
    rw [boot_fms1, hboot]
    rfl
  · intro j hj haccept
    cases hboot : validate_image (some (slot_after slot capsule j)) kSlotBytes api with
    | error e =>
      rw [boot_fms1, hboot] at haccept
      cases haccept
    | ok info' =>
      obtain ⟨_, hheader', _, hhash'⟩ := (validate_image_eq_ok _ _ _ _).mp hboot
      by_cases hpos : 0 < j
      · have hfirst := slot_after_header slot hlow.le hle hpos hj
        rw [hfirst] at hheader' hhash'
        rw [hheader.info_eq hheader', hbytes, ← code_of] at hhash'
        exact same_or_collision hlow.le hfirst (hhash'.trans hhash.symm)
      · -- nothing was programmed: there is no magic
        obtain rfl : j = 0 := by omega
        have hmagic := hheader'.magic
        rw [List.take_take, min_eq_left (by decide), slot_after_erased slot hle] at hmagic
        exact absurd hmagic (by unfold ascii; decide)

/-! ## FMS2 -/

namespace Stateful

/-- A generation that can begin: none is active, the number is new and the arena is the
contract's. -/
structure Generation.Ready (g : Generation) (contract : Contract) (generation : ℕ) : Prop where
  inactive : g.active = false
  newer : g.last_generation < generation
  window : ∃ window, g.arena = ⟨some window, contract.state_address⟩ ∧
    window.length = contract.state_capacity_bytes

/-- The arena of a new generation: initialised data, then zeros. -/
def initial_arena (image : List Byte) (info : ImageInfo) (capacity : ℕ) : List Byte :=
  let data := (image.drop info.data_load_offset).take info.data_bytes
  data ++ List.replicate (capacity - data.length) 0

variable {contract : Contract}

/-- A valid image begins. -/
theorem Generation.Ready.begin {g : Generation} {generation : ℕ}
    (h : g.Ready contract generation) {image : List Byte} {size : ℕ} {info : ImageInfo}
    (hvalid : validate_image (some image) size contract = .ok info) :
    g.begin (some image) size contract generation false = (.ok info,
      ⟨⟨some (initial_arena image info contract.state_capacity_bytes), contract.state_address⟩, true,
        generation⟩) := by
  obtain ⟨window, harena, hlength⟩ := h.window
  have hnumber : ¬ (generation = 0 || generation ≤ g.last_generation) = true := by
    have hnewer := h.newer
    simp only [Bool.or_eq_true, decide_eq_true_eq]
    omega
  unfold Generation.begin
  rw [if_neg (by simp [h.inactive]), if_neg hnumber, hvalid]
  simp only [harena, hlength, ne_eq, not_true_eq_false, decide_false, Bool.or_self, Bool.false_eq_true,
    if_false, Option.getD_some]
  rfl

/-- A runtime that was never used. -/
def fresh_runtime (contract : Contract) (window : List Byte) : Runtime where
  contract := contract
  generation := { arena := ⟨some window, contract.state_address⟩ }

/-- What a runtime that was started will run, and its arena. -/
def started : Except Error ImageInfo × Runtime → Option (ImageInfo × Option (List Byte))
  | (.ok _, r) => some (r.image, r.generation.arena.data)
  | (.error _, _) => none

/-- The boot of an FMS2 resident. The slot is in flash and the arena in RAM, so they do not
overlap. -/
def boot_fms2 (contract : Contract) (window slot : List Byte) : Option (ImageInfo × Option (List Byte)) :=
  started ((fresh_runtime contract window).boot_from_slot (some slot) kProofSectorBytes false)

theorem fresh_ready {window : List Byte} (hwindow : window.length = contract.state_capacity_bytes) :
    (fresh_runtime contract window).generation.Ready contract 1 :=
  ⟨rfl, Nat.zero_lt_one, window, rfl, hwindow⟩

/-- A start: the slot is cut at the length its header gives. -/
theorem start_from_slot_sector (r : Runtime) (contract : Contract) (hcontract : r.contract = contract)
    (slot : List Byte) :
    r.start_from_slot (some slot) kProofSectorBytes false =
      if word32_le (slot.drop 52) < kCodeOffset ∨ kProofSectorBytes < word32_le (slot.drop 52)
          ∨ contract.maximum_capsule_bytes < word32_le (slot.drop 52) then (.error .bad_image_size, r)
      else r.start_exact (some (slot.take (word32_le (slot.drop 52)))) (word32_le (slot.drop 52)) false := by
  have hsector : kMaximumCapsuleBytes = kProofSectorBytes := rfl
  unfold Runtime.start_from_slot
  simp only [hsector, hcontract]
  generalize word32_le (slot.drop 52) = bytes
  rw [if_neg (by decide)]
  by_cases hout : bytes < kCodeOffset ∨ kProofSectorBytes < bytes ∨ contract.maximum_capsule_bytes < bytes
  · have hrefused : ((bytes < kCodeOffset ∨ kProofSectorBytes < bytes)
        ∨ contract.maximum_capsule_bytes < bytes) ∨ kProofSectorBytes < bytes := by omega
    rw [if_pos hout, if_pos (by simpa using hrefused)]
  · have hin : ¬ (((bytes < kCodeOffset ∨ kProofSectorBytes < bytes)
        ∨ contract.maximum_capsule_bytes < bytes) ∨ kProofSectorBytes < bytes) := by omega
    rw [if_neg hout, if_neg (by simpa using hin)]

/-- A boot takes what is valid at the length of the header, and begins it. -/
theorem boot_fms2_eq {window : List Byte}
    (hwindow : window.length = contract.state_capacity_bytes) (slot : List Byte) :
    boot_fms2 contract window slot =
      if word32_le (slot.drop 52) < kCodeOffset ∨ kProofSectorBytes < word32_le (slot.drop 52)
          ∨ contract.maximum_capsule_bytes < word32_le (slot.drop 52) then none
      else
        match validate_image (some (slot.take (word32_le (slot.drop 52)))) (word32_le (slot.drop 52))
            contract with
        | .error _ => none
        | .ok info => some (info, some (initial_arena (slot.take (word32_le (slot.drop 52))) info
            contract.state_capacity_bytes)) := by
  have hready := fresh_ready hwindow
  unfold boot_fms2 Runtime.boot_from_slot
  rw [if_neg (by simp [fresh_runtime]), start_from_slot_sector _ contract rfl]
  generalize word32_le (slot.drop 52) = bytes
  by_cases hout : bytes < kCodeOffset ∨ kProofSectorBytes < bytes ∨ contract.maximum_capsule_bytes < bytes
  · rw [if_pos hout, if_pos hout]
    rfl
  · rw [if_neg hout, if_neg hout]
    unfold Runtime.start_exact
    rw [if_neg (by simp [fresh_runtime, Runtime.can_start])]
    simp only [fresh_runtime]
    cases hvalid : validate_image (some (slot.take bytes)) bytes contract with
    | error e =>
      have hbegin : (fresh_runtime contract window).generation.begin (some (slot.take bytes)) bytes
          contract 1 false = (.error e, (fresh_runtime contract window).generation) := by
        simp [Generation.begin, fresh_runtime, hvalid]
      simp only [fresh_runtime] at hbegin
      simp only [Nat.zero_add, hbegin, started]
    | ok info =>
      have hbegin := hready.begin hvalid
      simp only [fresh_runtime] at hbegin
      simp only [Nat.zero_add, hbegin, started]

/-- The same for an FMS2 capsule; the boot also prepares the arena from its data. -/
theorem boots_as_fms2 (slot : Slot) {window : List Byte} {info : ImageInfo}
    (hmax : contract.maximum_capsule_bytes = kProofSectorBytes)
    (hvalid : validate_image (some capsule) capsule.length contract = .ok info)
    (hwindow : window.length = contract.state_capacity_bytes) :
    BootsAs (boot_fms2 contract window) slot capsule
      (info, some (initial_arena capsule info contract.state_capacity_bytes)) := by
  obtain ⟨hcontract, hlow, hle, hheader, hsize, hhash⟩ := (validate_image_eq_ok _ _ _ _).mp hvalid
  rw [hmax] at hle
  have hcode : (capsule.drop kCodeOffset).take (info.image_bytes - kCodeOffset)
      = capsule.drop kCodeOffset := by
    rw [List.take_of_length_le]
    rw [List.length_drop, hsize]
  rw [hcode] at hhash
  -- with the header of the capsule, the boot reads the length of the capsule
  have hlength : ∀ {image : List Byte}, image.take kCodeOffset = capsule.take kCodeOffset →
      word32_le (image.drop 52) = capsule.length := by
    intro image hfirst
    rw [← word32_le_take image (n := kCodeOffset) (by decide), hfirst, hheader.total, hsize]
  have hin : ¬ (capsule.length < kCodeOffset ∨ kProofSectorBytes < capsule.length
      ∨ contract.maximum_capsule_bytes < capsule.length) := by
    rw [hmax]
    omega
  refine ⟨?_, ?_⟩
  · have hsame := slot_after_whole slot hle
    have hfirst : (slot_after slot capsule (page_count capsule)).take kCodeOffset
        = capsule.take kCodeOffset := by
      have hcut := congrArg (List.take kCodeOffset) hsame
      rwa [List.take_take, min_eq_left hlow] at hcut
    rw [boot_fms2_eq hwindow, hlength hfirst, if_neg hin, hsame, hvalid]
  · intro j hj haccept
    by_cases hpos : 0 < j
    · have hfirst := slot_after_header slot hlow hle hpos hj
      rw [boot_fms2_eq hwindow, hlength hfirst, if_neg hin] at haccept
      cases hboot : validate_image (some ((slot_after slot capsule j).take capsule.length))
          capsule.length contract with
      | error e =>
        rw [hboot] at haccept
        cases haccept
      | ok info' =>
        obtain ⟨_, _, _, hheader', _, hhash'⟩ := (validate_image_eq_ok _ _ _ _).mp hboot
        rw [List.take_take, min_eq_left hlow, hfirst] at hheader' hhash'
        rw [hheader.info_eq hheader', ← hsize, List.drop_take, List.take_take, min_self,
          ← code_of] at hhash'
        exact same_or_collision hlow hfirst (hhash'.trans hhash.symm)
    · -- nothing was programmed: there is no magic
      obtain rfl : j = 0 := by omega
      rw [boot_fms2_eq hwindow] at haccept
      generalize word32_le ((slot_after slot capsule 0).drop 52) = bytes at haccept
      split at haccept
      · cases haccept
      next hbytes =>
      cases hboot : validate_image (some ((slot_after slot capsule 0).take bytes)) bytes contract with
      | error e =>
        rw [hboot] at haccept
        cases haccept
      | ok info' =>
        obtain ⟨_, hroom, _, hheader', _, _⟩ := (validate_image_eq_ok _ _ _ _).mp hboot
        have hmagic := hheader'.magic
        have hfour : 4 ≤ kCodeOffset := by decide
        rw [List.take_take, min_eq_left hfour, List.take_take, min_eq_left (le_trans hfour hroom),
          slot_after_erased slot hle] at hmagic
        exact absurd hmagic (by unfold ascii; decide)

end Stateful

/-! ## Both formats -/

/-- **Boot after a complete or an interrupted install.** Whatever the slot held: a capsule that
the FMS1 stage or the FMS2 validator accepts is booted from the fully programmed slot with the
extents, the entries and, for FMS2, the initial arena it was installed with; and a boot accepts the
slot after some of the pages only if it starts with the capsule, or else what follows its header
and what follows the capsule's are different byte strings with one SHA-256 digest. -/
theorem boot_after_install (slot : Slot) :
    (∀ api capsule, StageAccepts api capsule →
      ∃ info, validate_image (some capsule) capsule.length api = .ok info ∧
        BootsAs (boot_fms1 api) slot capsule info) ∧
    ∀ contract capsule info window, contract.maximum_capsule_bytes = kProofSectorBytes →
      Stateful.validate_image (some capsule) capsule.length contract = .ok info →
      window.length = contract.state_capacity_bytes →
      ∃ arena, BootsAs (Stateful.boot_fms2 contract window) slot capsule (info, some arena) ∧
        ∀ (g : Stateful.Generation) (generation : ℕ), g.Ready contract generation →
          (g.begin (some capsule) capsule.length contract generation false).1 = .ok info ∧
          (g.begin (some capsule) capsule.length contract generation false).2.arena.data
            = some arena := by
  refine ⟨fun api capsule haccepts => boots_as_fms1 slot haccepts, ?_⟩
  intro contract capsule info window hmax hvalid hwindow
  refine ⟨_, Stateful.boots_as_fms2 slot hmax hvalid hwindow, ?_⟩
  intro g generation hready
  rw [hready.begin hvalid]
  exact ⟨rfl, rfl⟩

/-- A resident of FMS2 with 4 KiB of state. -/
def sample_contract : Stateful.Contract := ⟨0x10000100, 0x20001000, 4096, 4096⟩

/-- An FMS2 image: four bytes of code, four of data and four of zeroed data. -/
def sample_stateful_image : List Byte :=
  let payload : List Byte := [0, 0xbf, 0xfe, 0xe7, 1, 2, 3, 4]
  let front := ascii "FMS2" ++ [2, 0, 128, 0] ++ ascii "NANO" ++ [0, 1, 0, 0x10] ++ [0, 1, 0x20, 0x10]
    ++ [4, 0, 0, 0] ++ [1, 1, 0x20, 0x10] ++ [1, 1, 0x20, 0x10] ++ [0, 0x10, 0, 0x20] ++ [4, 0, 0, 0]
    ++ [4, 0x10, 0, 0x20] ++ [4, 0, 0, 0] ++ [4, 1, 0, 0] ++ [8, 1, 0, 0] ++ List.replicate 8 0
    ++ sha256 payload
  front ++ sha256 front ++ List.replicate 128 0 ++ payload

/-- The stage accepts the sample image. -/
theorem sample_image_stages : CapsuleStage.Stages 7 0x10000100 sample_image [sample_image] := by
  obtain ⟨info, hvalid⟩ := exists_of_isOk
    (show (validate_image (some sample_image) sample_image.length 0x10000100).isOk = true by
      decide +kernel)
  have hheader := ((validate_image_eq_ok _ _ _ _).mp hvalid).2.1
  refine (CapsuleStage.stages_iff (by decide) (by decide) (by decide +kernel) (by simp)).mpr
    ⟨by decide +kernel, by decide +kernel, info, hvalid, ?_⟩
  rw [← hheader.code_bytes]
  decide +kernel

/-- Both sample images boot from a slot that was all zeros. -/
theorem boot_after_install_samples :
    ∃ slot : Slot,
      (boot_fms1 0x10000100 (slot_after slot sample_image (page_count sample_image))).isSome = true ∧
      (Stateful.boot_fms2 sample_contract (List.replicate 4096 0)
        (slot_after slot sample_stateful_image (page_count sample_stateful_image))).isSome = true := by
  obtain ⟨info, hvalid⟩ := exists_of_isOk
    (show (Stateful.validate_image (some sample_stateful_image) sample_stateful_image.length
      sample_contract).isOk = true by decide +kernel)
  let slot : Slot := ⟨List.replicate kSlotBytes 0, List.length_replicate⟩
  obtain ⟨hfms1, hfms2⟩ := boot_after_install slot
  refine ⟨slot, ?_, ?_⟩
  · obtain ⟨_, _, hboots⟩ := hfms1 0x10000100 sample_image
      ⟨by decide, 7, [sample_image], by decide, by decide +kernel, by simp, sample_image_stages⟩
    rw [hboots.complete]
    rfl
  · obtain ⟨_, hboots, _⟩ := hfms2 sample_contract sample_stateful_image info (List.replicate 4096 0)
      rfl hvalid List.length_replicate
    rw [hboots.complete]
    rfl

end Firmingo.Managed
