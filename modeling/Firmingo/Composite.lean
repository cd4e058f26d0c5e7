/-
The builder's check of an FMS1 capsule: `checked_capsule` of
`experiments/managed_sketch/build_composite.py`.

Python reads the same header as the device, through other conditions: exact length instead
of available bytes, an address range instead of the resident's own address, hexadecimal
digests, unbounded integers. `checkers_agree` says that it lets through what the stage
would take.
-/
import Firmingo.Capsules
import Firmingo.FlashSafety
import Firmingo.Replies

set_option autoImplicit false

open Octets

namespace Firmingo.Managed

/-! ## Python -/

/-- What a script raises, a `ValueError` with its text. -/
inductive PyError
  | value_error (message : String)
  | struct_error
  | key_error
  deriving DecidableEq, Repr

/-- `sha`: `hexdigest` of SHA-256. -/
def sha (data : List Byte) : List Byte := hex_text (sha256 data)

/-- Two hex digits tell every byte apart. -/
theorem hex_pair_injective (x y : Byte)
    (h : [hex_digit (x.toNat / 16), hex_digit (x.toNat % 16)]
      = [hex_digit (y.toNat / 16), hex_digit (y.toNat % 16)]) : x = y := by
  have hdigit : ∀ a < 16, ∀ b < 16, hex_digit a = hex_digit b → a = b := by
    unfold hex_digit ascii
    decide
  simp only [List.cons.injEq, and_true] at h
  have hx := x.toNat_lt
  have hy := y.toNat_lt
  have hhigh := hdigit (x.toNat / 16) (by omega) (y.toNat / 16) (by omega) h.1
  have hlow := hdigit (x.toNat % 16) (by omega) (y.toNat % 16) (by omega) h.2
  apply UInt8.toNat.inj
  omega

/-- The hexadecimal text of some bytes says what they are. -/
theorem hex_text_injective (a b : List Byte) (h : hex_text a = hex_text b) : a = b := by
  induction a generalizing b with
  | nil =>
    cases b with
    | nil => rfl
    | cons y b => simp [hex_text] at h
  | cons x a ih =>
    cases b with
    | nil => simp [hex_text] at h
    | cons y b =>
      simp only [hex_text, List.flatMap_cons] at h
      obtain ⟨hpair, hrest⟩ := List.append_inj h rfl
      rw [hex_pair_injective x y hpair, ih b hrest]

/-! ## `checked_capsule` -/

namespace Composite

def SLOT : ℕ := 0x10200000
def SLOT_END : ℕ := 0x10600000

/-- The fields of `"<4sHHIIIIII"`. -/
structure Fields where
  magic : List Byte
  abi : ℕ
  header : ℕ
  board : ℕ
  api : ℕ
  code_at : ℕ
  code_bytes : ℕ
  setup : ℕ
  loop : ℕ

/-- `struct.unpack_from("<4sHHIIIIII", data)`. -/
def unpack_from (data : List Byte) : Except PyError Fields :=
  if data.length < 32 then .error .struct_error
  else .ok {
    magic := data.take 4
    abi := word16_le (data.drop 4)
    header := word16_le (data.drop 6)
    board := word32_le (data.drop 8)
    api := word32_le (data.drop 12)
    code_at := word32_le (data.drop 16)
    code_bytes := word32_le (data.drop 20)
    setup := word32_le (data.drop 24)
    loop := word32_le (data.drop 28) }

/-- The test of an entry; `entry & ~1` is the entry without its lowest bit. -/
def entry_outside (code_at code_bytes entry : ℕ) : Bool :=
  entry % 2 = 0 || !(code_at ≤ entry - entry % 2 && entry - entry % 2 < code_at + code_bytes)

/-- `checked_capsule`. -/
def checked_capsule (data : List Byte) : Except PyError ℕ :=
  if data.length < 257 || data.length > SLOT_END - SLOT then
    .error (.value_error "module capsule is outside the sketch slot")
  else
    match unpack_from data with
    | .error e => .error e
    | .ok f =>
      if (f.magic, f.abi, f.header, f.board, f.code_at)
          ≠ (ascii "FMS1", 1, 64, 0x4F4E414E, SLOT + 256) then
        .error (.value_error "module header does not match the Nano proof")
      else if !(0x10000000 ≤ f.api && f.api < 0x10200000) || f.api % 4 ≠ 0 then
        .error (.value_error "module API address is outside resident flash")
      else if f.code_bytes = 0 || data.length ≠ f.code_bytes + 256 then
        .error (.value_error "module code length is invalid")
      else if sha (data.drop 256) ≠ hex_text ((data.drop 32).take 32) then
        .error (.value_error "module SHA-256 mismatch")
      else if [f.setup, f.loop].any (entry_outside f.code_at f.code_bytes) then
        .error (.value_error "module entry is outside its code")
      else if ((data.drop 64).take (256 - 64)).any (· ≠ 0) then
        .error (.value_error "module padding is not zero")
      else .ok f.api

/-! ## The two checkers -/

/-- An API address the resident can have. -/
def ApiAddress (api : ℕ) : Prop := 0x10000000 ≤ api ∧ api < 0x10200000 ∧ api % 4 = 0

/-- The two entry tests are one. -/
theorem entry_outside_eq_false (code_at code_bytes entry : ℕ) :
    entry_outside code_at code_bytes entry = false ↔ entry_in_code entry code_at code_bytes = true := by
  unfold entry_outside entry_in_code
  by_cases hodd : entry % 2 = 0
  · simp [hodd]
  · have hone : entry % 2 = 1 := by omega
    simp only [hone, one_ne_zero, decide_false, Bool.false_or, Bool.not_eq_false', Bool.and_eq_true,
      decide_eq_true_eq, if_false, ge_iff_le]
    omega

/-- What `checked_capsule` lets through, in the device's terms. -/
theorem checked_capsule_eq_ok (data : List Byte) (api : ℕ) :
    checked_capsule data = .ok api ↔
      ApiAddress api ∧ kCodeOffset < data.length ∧ data.length ≤ kSlotBytes ∧
      ∃ info, validate_image (some data) data.length api = .ok info ∧
        data.length = kCodeOffset + info.code_bytes := by
  have hunpack : kCodeOffset < data.length → unpack_from data = .ok {
      magic := data.take 4
      abi := word16_le (data.drop 4)
      header := word16_le (data.drop 6)
      board := word32_le (data.drop 8)
      api := word32_le (data.drop 12)
      code_at := word32_le (data.drop 16)
      code_bytes := word32_le (data.drop 20)
      setup := word32_le (data.drop 24)
      loop := word32_le (data.drop 28) } := by
    intro hlen
    simp only [kCodeOffset] at hlen
    rw [unpack_from, if_neg (by omega)]
  by_cases hlen : kCodeOffset < data.length ∧ data.length ≤ kSlotBytes
  · have hin : ¬ (data.length < 257 ∨ data.length > SLOT_END - SLOT) := by
      simp only [kCodeOffset, kSlotBytes, SLOT, SLOT_END] at hlen ⊢
      omega
    unfold checked_capsule
    rw [if_neg (by simpa using hin), hunpack hlen.1]
    simp only [validate_image, check_eq_ok, ne_eq, not_not, not_lt, Bool.or_eq_true, decide_eq_true_eq,
      not_or, Bool.not_eq_true', Bool.not_eq_false, Bool.not_eq_true, any_ne_zero_eq_false,
      Prod.mk.injEq, Bool.and_eq_true, List.any_cons, List.any_nil, Bool.or_false,
      entry_outside_eq_false, gt_iff_lt, Except.ok.injEq]
    -- the tool hashes all that follows the header, the device the announced bytes: the sizes agree
    constructor
    · rintro ⟨⟨magic, abi, header, board, address⟩, ⟨⟨hlow, hhigh⟩, halign⟩, ⟨hpos, hsize⟩, hhash,
        ⟨hsetup, hloop⟩, padding, rfl⟩
      have hall : (data.drop kCodeOffset).take (word32_le (data.drop 20)) = data.drop kCodeOffset := by
        rw [List.take_of_length_le]
        rw [List.length_drop, kCodeOffset]
        omega
      rw [address] at hsetup hloop
      refine ⟨⟨hlow, hhigh, halign⟩, hlen.1, hlen.2, _, ⟨hlen.1.le, magic, abi, header, board, rfl,
        address, ⟨hpos, ?_⟩, ⟨hsetup, hloop⟩, padding, ?_, ?_, rfl⟩, ?_⟩
      · have hmax := hlen.2
        simp only [kSlotBytes, kCodeOffset] at hmax ⊢
        omega
      · rw [kCodeOffset]
        omega
      · rw [hall]
        exact hex_text_injective _ _ hhash
      · rw [hsize, Nat.add_comm]
        rfl
    · rintro ⟨⟨hlow, hhigh, halign⟩, _, _, info, ⟨_, magic, abi, header, board, hapi, address,
        ⟨hpos, _⟩, ⟨hsetup, hloop⟩, padding, _, hhash, rfl⟩, hsize⟩
      have hall : (data.drop kCodeOffset).take (word32_le (data.drop 20)) = data.drop kCodeOffset := by
        rw [List.take_of_length_le]
        rw [List.length_drop]
        simp only at hsize
        omega
      rw [hall] at hhash
      rw [address, hapi]
      refine ⟨⟨magic, abi, header, board, rfl⟩, ⟨⟨hlow, hhigh⟩, halign⟩, ⟨hpos, ?_⟩,
        congrArg hex_text hhash, ⟨hsetup, hloop⟩, padding, rfl⟩
      rw [hsize, Nat.add_comm]
      rfl
  · refine iff_of_false ?_ (by tauto)
    have hout : data.length < 257 ∨ data.length > SLOT_END - SLOT := by
      simp only [kCodeOffset, kSlotBytes, SLOT, SLOT_END] at hlen ⊢
      omega
    unfold checked_capsule
    rw [if_pos (by simpa using hout)]
    simp

/-- Every refusal is a `ValueError`: the header is there when it is read. -/
theorem checked_capsule_cases (data : List Byte) :
    (∃ api, checked_capsule data = .ok api) ∨
    ∃ message, checked_capsule data = .error (.value_error message) := by
  unfold checked_capsule
  split
  · exact .inr ⟨_, rfl⟩
  next hlen =>
  simp only [Bool.or_eq_true, decide_eq_true_eq, not_or, not_lt] at hlen
  rw [unpack_from, if_neg (by omega)]
  simp only
  iterate 6
    split
    · exact .inr ⟨_, rfl⟩
  exact .inl ⟨_, rfl⟩

/-- **The builder and the device agree.** A capsule that fits the stage is let through with an
API address if and only if a fresh stage for that resident returns `ok` at every step, whatever
the owner and the pieces; and it is refused, with a `ValueError`, if there is no such address. -/
theorem checkers_agree (data : List Byte) (hsize : data.length ≤ kProofStageBytes) (owner : UInt32)
    (howner : owner ≠ 0) (pieces : List (List Byte)) (hne : ∀ piece ∈ pieces, piece ≠ [])
    (hflat : pieces.flatten = data) :
    (∀ api, ApiAddress api →
      (checked_capsule data = .ok api ↔ CapsuleStage.Stages owner api data pieces)) ∧
    ((∃ message, checked_capsule data = .error (.value_error message)) ↔
      ¬ ∃ api, ApiAddress api ∧ CapsuleStage.Stages owner api data pieces) := by
  have hagree : ∀ api, ApiAddress api →
      (checked_capsule data = .ok api ↔ CapsuleStage.Stages owner api data pieces) := by
    intro api hapi
    have hnonzero : api ≠ 0 := by
      have hlow := hapi.1
      omega
    have hslot : data.length ≤ kSlotBytes := le_trans hsize (by decide)
    rw [checked_capsule_eq_ok, CapsuleStage.stages_iff howner hnonzero hne hflat]
    tauto
  refine ⟨hagree, ?_⟩
  rcases checked_capsule_cases data with ⟨api, hok⟩ | ⟨message, herror⟩
  · have hapi := ((checked_capsule_eq_ok data api).mp hok).1
    refine iff_of_false ?_ (not_not_intro ⟨api, hapi, (hagree api hapi).mp hok⟩)
    rintro ⟨message, herror⟩
    rw [hok] at herror
    cases herror
  · refine iff_of_true ⟨message, herror⟩ ?_
    rintro ⟨api, hapi, hstages⟩
    rw [(hagree api hapi).mpr hstages] at herror
    cases herror

/-- The smallest image, in two pieces. -/
theorem checkers_agree_on_sample :
    checked_capsule sample_image = .ok 0x10000100 ∧
    CapsuleStage.Stages 7 0x10000100 sample_image [sample_image.take 200, sample_image.drop 200] := by
  have hok : checked_capsule sample_image = .ok 0x10000100 := by decide +kernel
  refine ⟨hok, ?_⟩
  have h := checkers_agree sample_image (by decide +kernel) 7 (by decide)
    [sample_image.take 200, sample_image.drop 200] (by decide +kernel) (by simp)
  exact (h.1 0x10000100 ⟨by decide, by decide, by decide⟩).mp hok

end Composite

end Firmingo.Managed
