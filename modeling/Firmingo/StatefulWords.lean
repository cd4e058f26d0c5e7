/-
`validate_image` of FMS2 in 32-bit arithmetic.

`Firmingo.StatefulImage` has the checks over natural numbers. Here they are once more, in the
source's order and with the source's operations, each of which fails where the machine would
wrap or read past the image. No run fails, so the two agree; and what the checks add up to is
the layout of an image, an equation for every field.
-/
import Firmingo.Capsules
import Firmingo.Checked

set_option autoImplicit false

open Octets Checked

namespace Firmingo.Managed.Stateful

/-! ## The checks, word by word -/

/-- `Result`. -/
structure Result where
  error : Option Error
  image : ImageInfo
  deriving DecidableEq, Repr

/-- `failed`. -/
def failed (error : Error) : Result := ⟨some error, {}⟩

def Result.of : Except Error ImageInfo → Result
  | .ok info => ⟨none, info⟩
  | .error error => failed error

namespace Words

/-- `if (condition) return failed(error);`. -/
def check (condition : Exec Bool) (error : Error) (rest : Exec Result) : Exec Result :=
  condition >>= fun bad => if bad then .ok (failed error) else rest

def u16 (image : List Byte) (i : ℕ) : Exec ℕ := (span image i 2).map word16_le

def u32 (image : List Byte) (i : ℕ) : Exec ℕ := (span image i 4).map word32_le

/-- `valid_contract`, its conjunction as the negation of a disjunction. -/
def invalid_contract (c : Contract) : Exec Bool :=
  either (.ok (c.api_address < 0x10000000 || c.api_address ≥ kSlotAddress || c.api_address % 4 ≠ 0
      || c.state_address < 0x20000000 || c.state_address ≥ 0x20040000 || c.state_address % 4 ≠ 0
      || c.state_capacity_bytes = 0 || c.state_capacity_bytes % 4 ≠ 0)) <|
    either ((minus 0x20040000 c.state_address).map fun room => c.state_capacity_bytes > room) <|
      (plus kCodeOffset 4).map fun least =>
        c.maximum_capsule_bytes < least || c.maximum_capsule_bytes > kMaximumCapsuleBytes

/-- `!entry(address, bytes)`. -/
def no_entry (address bytes : ℕ) : Exec Bool :=
  plus kSlotAddress kCodeOffset >>= fun base =>
    let instruction := address - address % 2
    either (.ok (address % 2 ≠ 1 || instruction < base)) <|
      minus instruction base >>= fun offset =>
        either (.ok (offset ≥ bytes)) ((minus bytes offset).map fun rest => rest < 2)

/-- The bytes of the padding are read until one is not zero. -/
def padded (image : List Byte) : ℕ → ℕ → Exec Bool
  | _, 0 => .ok false
  | i, n + 1 => either ((span image i 1).map fun b => b ≠ [0]) (padded image (i + 1) n)

/-- `!hash_matches(image + i, n, image + expected)`. -/
def hash_differs (image : List Byte) (i n expected : ℕ) : Exec Bool :=
  span image i n >>= fun data => (span image expected 32).map fun hash => sha256 data ≠ hash

/-- `validate_image`. -/
def validate_image (image : List Byte) (size : ℕ) (contract : Contract) : Exec Result :=
  check (invalid_contract contract) .invalid_contract <|
  check (.ok (size < kCodeOffset)) .short_header <|
  check (.ok (size > contract.maximum_capsule_bytes)) .bad_image_size <|
  check ((span image 0 4).map (· ≠ ascii "FMS2")) .bad_magic <|
  check ((u16 image 4).map (· ≠ kImageVersion)) .unsupported_version <|
  check ((u16 image 6).map (· ≠ kHeaderBytes)) .bad_header_size <|
  check ((u32 image 8).map (· ≠ kNanoBoardTag)) .wrong_board <|
  check ((u32 image 12).map (· ≠ contract.api_address)) .wrong_api <|
  check (plus kSlotAddress kCodeOffset >>= fun address => (u32 image 16).map (· ≠ address))
    .wrong_code_address <|
  u32 image 20 >>= fun code =>
  check (either (.ok (code = 0 || code % 4 ≠ 0))
    ((minus contract.maximum_capsule_bytes kCodeOffset).map (code > ·))) .bad_code_size <|
  u32 image 24 >>= fun setup => u32 image 28 >>= fun loop =>
  check (either (no_entry setup code) (no_entry loop code)) .bad_entry <|
  u32 image 36 >>= fun data => u32 image 44 >>= fun bss =>
  check (either (either (either
      ((u32 image 32).map fun state => state ≠ contract.state_address || data % 4 ≠ 0 || bss % 4 ≠ 0)
      (.ok (data > contract.state_capacity_bytes)))
      ((minus contract.state_capacity_bytes data).map (bss > ·)))
      (plus contract.state_address data >>= fun address => (u32 image 40).map (· ≠ address)))
    .bad_state_layout <|
  plus kCodeOffset code >>= fun load =>
  check (either ((u32 image 48).map (· ≠ load))
    ((minus contract.maximum_capsule_bytes load).map (data > ·))) .bad_data_layout <|
  plus load data >>= fun total =>
  check ((u32 image 52).map fun announced => announced ≠ total || size ≠ total) .bad_image_size <|
  check (either ((u32 image 56).map (· ≠ 0)) ((u32 image 60).map (· ≠ 0))) .nonzero_reserved <|
  check (padded image kHeaderBytes (kCodeOffset - kHeaderBytes)) .nonzero_reserved <|
  check (hash_differs image 0 96 96) .header_hash_mismatch <|
  check (minus total kCodeOffset >>= fun rest => hash_differs image kCodeOffset rest 64)
    .payload_hash_mismatch <|
  .ok ⟨none, ⟨total, code, setup, loop, load, data, bss⟩⟩

/-! ## No fault -/

/-- A check that does not fault. -/
theorem check_eq {condition : Exec Bool} {p : Prop} [Decidable p] {error : Error} {rest : Exec Result}
    {x : Except Error ImageInfo} (hp : condition = .ok (decide p)) (hrest : ¬ p → rest = .ok (.of x)) :
    check condition error rest = .ok (.of (if p then .error error else x)) := by
  rw [check, hp]
  by_cases h : p
  · rw [if_pos h, decide_eq_true h]
    rfl
  · rw [if_neg h, decide_eq_false h]
    exact hrest h

variable {image : List Byte}

theorem u16_eq {i : ℕ} (h : i + 2 ≤ image.length) : u16 image i = .ok (word16_le (image.drop i)) := by
  rw [u16, span_eq h, ok_map, word16_le, getD_take_of_lt _ (by omega), getD_take_of_lt _ (by omega),
    word16_le]

theorem u32_eq {i : ℕ} (h : i + 4 ≤ image.length) : u32 image i = .ok (word32_le (image.drop i)) := by
  rw [u32, span_eq h, ok_map, word32_le, getD_take_of_lt _ (by omega), getD_take_of_lt _ (by omega),
    getD_take_of_lt _ (by omega), getD_take_of_lt _ (by omega), word32_le]

/-- No step of the contract check wraps, and it agrees with `valid_contract`. -/
theorem invalid_contract_eq (c : Contract) : invalid_contract c = .ok (!valid_contract c) := by
  have hleast : plus kCodeOffset 4 = .ok (kCodeOffset + 4) := plus_eq (by decide)
  have hroom : c.state_address < 0x20040000 →
      minus 0x20040000 c.state_address = .ok (0x20040000 - c.state_address) := fun h => minus_eq h.le
  unfold invalid_contract
  refine (either_eq (y := decide (c.state_capacity_bytes > 0x20040000 - c.state_address)
    || (decide (c.maximum_capsule_bytes < kCodeOffset + 4)
      || decide (c.maximum_capsule_bytes > kMaximumCapsuleBytes))) rfl fun hin =>
    either_eq ?_ fun _ => ?_).trans (congrArg Except.ok ?_)
  · simp only [Bool.or_eq_false_iff, decide_eq_false_iff_not, not_le, ge_iff_le] at hin
    rw [hroom hin.1.1.1.2, ok_map]
  · rw [hleast, ok_map]
  · rw [Bool.eq_iff_iff]
    simp only [valid_contract, Bool.or_eq_true, decide_eq_true_eq, Bool.not_eq_true', Bool.and_eq_false_iff,
      decide_eq_false_iff_not]
    omega

/-- Nor does one of the entry check. -/
theorem no_entry_eq (address bytes : ℕ) : no_entry address bytes = .ok (!entry address bytes) := by
  have hbase : plus kSlotAddress kCodeOffset = .ok (kSlotAddress + kCodeOffset) := plus_eq (by decide)
  unfold no_entry entry
  rw [hbase, ok_bind]
  generalize kSlotAddress + kCodeOffset = base
  simp only
  generalize address - address % 2 = instruction
  refine (either_eq (y := decide (instruction - base ≥ bytes) || decide (bytes - (instruction - base) < 2))
    rfl fun hin => ?_).trans (congrArg Except.ok ?_)
  · simp only [Bool.or_eq_false_iff, decide_eq_false_iff_not, not_lt] at hin
    rw [minus_eq hin.2, ok_bind]
    refine either_eq rfl fun hinside => ?_
    rw [minus_eq (not_le.mp (of_decide_eq_false hinside)).le, ok_map]
  · rw [Bool.eq_iff_iff]
    simp only [Bool.or_eq_true, decide_eq_true_eq, Bool.not_eq_true', Bool.and_eq_false_iff,
      decide_eq_false_iff_not]
    omega

theorem padded_eq (i n : ℕ) (h : i + n ≤ image.length) :
    padded image i n = .ok (((image.drop i).take n).any (· ≠ 0)) := by
  induction n generalizing i with
  | zero => simp [padded]
  | succ n ih =>
    have hdrop : image.drop i = image.get ⟨i, by omega⟩ :: image.drop (i + 1) :=
      List.drop_eq_getElem_cons (by omega)
    have hfirst : (span image i 1).map (fun b => decide (b ≠ [0])) = .ok (decide (image.get ⟨i, by omega⟩ ≠ 0)) := by
      rw [span_eq (by omega), ok_map, hdrop, List.take_succ_cons, List.take_zero]
      simp
    rw [padded, either_eq hfirst fun _ => ih (i + 1) (by omega), hdrop, List.take_succ_cons, List.any_cons]

theorem hash_differs_eq {i n expected : ℕ} (h : i + n ≤ image.length) (he : expected + 32 ≤ image.length) :
    hash_differs image i n expected
      = .ok (decide (sha256 ((image.drop i).take n) ≠ (image.drop expected).take 32)) := by
  rw [hash_differs, span_eq h, span_eq he, ok_bind, ok_map]

/-- **No check wraps and none reads past the image**: the words compute what the numbers do. -/
theorem validate_image_eq (image : List Byte) (contract : Contract) :
    validate_image image image.length contract
      = .ok (.of (Stateful.validate_image (some image) image.length contract)) := by
  have hbase : plus kSlotAddress kCodeOffset = .ok (kSlotAddress + kCodeOffset) := plus_eq (by decide)
  unfold validate_image Stateful.validate_image
  refine check_eq (by rw [Bool.decide_eq_true]; exact invalid_contract_eq contract) fun hcontract => ?_
  refine check_eq rfl fun hshort => ?_
  refine check_eq rfl fun hlong => ?_
  have hlen : 256 ≤ image.length := not_lt.mp hshort
  -- the header is all there, so no read of it is past the image
  have h32 : ∀ {i}, i + 4 ≤ 256 → u32 image i = .ok (word32_le (image.drop i)) :=
    fun hi => u32_eq (hi.trans hlen)
  have h16 : ∀ {i}, i + 2 ≤ 256 → u16 image i = .ok (word16_le (image.drop i)) :=
    fun hi => u16_eq (hi.trans hlen)
  refine check_eq (by rw [span_eq (by omega), ok_map, List.drop_zero]) fun _ => ?_
  refine check_eq (by rw [h16 (by decide), ok_map]) fun _ => ?_
  refine check_eq (by rw [h16 (by decide), ok_map]) fun _ => ?_
  refine check_eq (by rw [h32 (by decide), ok_map]) fun _ => ?_
  refine check_eq (by rw [h32 (by decide), ok_map]) fun _ => ?_
  refine check_eq (by rw [hbase, ok_bind, h32 (by decide), ok_map]) fun _ => ?_
  have hvalid : valid_contract contract = true := by simpa using hcontract
  simp only [valid_contract, Bool.and_eq_true, decide_eq_true_eq] at hvalid
  obtain ⟨⟨⟨⟨⟨⟨⟨_, hstate_lt⟩, _⟩, _⟩, _⟩, hcapacity⟩, hleast⟩, hmost⟩ := hvalid
  have hmax : contract.maximum_capsule_bytes ≤ 4096 := hmost
  rw [h32 (show 20 + 4 ≤ 256 by decide), ok_bind]
  refine check_eq (by
    rw [Bool.decide_eq_true, minus_eq (le_trans (Nat.le_add_right _ 4) hleast), ok_map]
    exact either_eq rfl fun _ => rfl) fun hcode => ?_
  rw [h32 (show 24 + 4 ≤ 256 by decide), ok_bind, h32 (show 28 + 4 ≤ 256 by decide), ok_bind]
  refine check_eq (by
    rw [Bool.decide_eq_true]
    exact either_eq (no_entry_eq _ _) fun _ => no_entry_eq _ _) fun _ => ?_
  rw [h32 (show 36 + 4 ≤ 256 by decide), ok_bind, h32 (show 44 + 4 ≤ 256 by decide), ok_bind]
  refine check_eq (by
    rw [Bool.decide_eq_true]
    refine either_eq (either_eq (either_eq ?_ fun _ => rfl) fun hin => ?_) fun hin => ?_
    · rw [h32 (by decide), ok_map]
    · simp only [Bool.or_eq_false_iff, decide_eq_false_iff_not, not_lt, gt_iff_lt] at hin
      rw [minus_eq hin.2, ok_map]
    · simp only [Bool.or_eq_false_iff, decide_eq_false_iff_not, not_lt, gt_iff_lt] at hin
      rw [plus_eq (by have hdata := hin.1.2; omega), ok_bind, h32 (by decide), ok_map]) fun hstate => ?_
  -- what a check has let through bounds the next sum
  have hcode_le : word32_le (image.drop 20) ≤ contract.maximum_capsule_bytes - kCodeOffset := by
    simp only [Bool.or_eq_true, decide_eq_true_eq, not_or, not_lt, gt_iff_lt] at hcode
    exact hcode.2
  rw [plus_eq (by unfold kCodeOffset at hcode_le ⊢; omega), ok_bind]
  refine check_eq (by
    rw [Bool.decide_eq_true]
    refine either_eq ?_ fun _ => ?_
    · rw [h32 (by decide), ok_map]
    · rw [minus_eq (by unfold kCodeOffset at hcode_le hleast ⊢; omega), ok_map]) fun hload => ?_
  have hdata_le : word32_le (image.drop 36)
      ≤ contract.maximum_capsule_bytes - (kCodeOffset + word32_le (image.drop 20)) := by
    simp only [Bool.or_eq_true, decide_eq_true_eq, not_or, not_lt, gt_iff_lt] at hload
    exact hload.2
  rw [plus_eq (by unfold kCodeOffset at hcode_le hdata_le ⊢; omega), ok_bind]
  refine check_eq (by rw [h32 (by decide), ok_map, Bool.decide_eq_true]) fun hsize => ?_
  have htotal : image.length = kCodeOffset + word32_le (image.drop 20) + word32_le (image.drop 36) := by
    simp only [Bool.or_eq_true, decide_eq_true_eq, not_or, not_not, ne_eq] at hsize
    exact hsize.2
  refine check_eq (by
    rw [Bool.decide_eq_true]
    refine either_eq ?_ fun _ => ?_
    · rw [h32 (by decide), ok_map]
    · rw [h32 (by decide), ok_map]) fun _ => ?_
  refine check_eq (by rw [Bool.decide_eq_true]; exact padded_eq _ _ hlen) fun _ => ?_
  refine check_eq (by rw [hash_differs_eq (by omega) (by omega), List.drop_zero]) fun _ => ?_
  refine check_eq (by
    rw [minus_eq (by omega), ok_bind, hash_differs_eq (by omega) (by omega)]) fun _ => ?_
  rfl

end Words

/-! ## The layout of an image -/

/-- The word at `i`. -/
def field (image : List Byte) (i : ℕ) : ℕ := word32_le (image.drop i)

/-- A Thumb entry: odd, with its instruction inside the code. -/
structure EntryIn (address code : ℕ) : Prop where
  odd : address % 2 = 1
  first : kSlotAddress + kCodeOffset ≤ address - 1
  last : address - 1 ≤ kSlotAddress + kCodeOffset + code - 2

/-- What an FMS2 image is, for a resident with this contract. -/
structure Layout (contract : Contract) (image : List Byte) : Prop where
  contract_ok : valid_contract contract = true
  magic : image.take 4 = ascii "FMS2"
  version : word16_le (image.drop 4) = kImageVersion
  header_bytes : word16_le (image.drop 6) = kHeaderBytes
  board : field image 8 = kNanoBoardTag
  api : field image 12 = contract.api_address
  code_address : field image 16 = kSlotAddress + kCodeOffset
  code_pos : 0 < field image 20
  code_words : field image 20 % 4 = 0
  setup : EntryIn (field image 24) (field image 20)
  loop : EntryIn (field image 28) (field image 20)
  state_address : field image 32 = contract.state_address
  data_words : field image 36 % 4 = 0
  bss_words : field image 44 % 4 = 0
  state_le : field image 36 + field image 44 ≤ contract.state_capacity_bytes
  bss_address : field image 40 = contract.state_address + field image 36
  load : field image 48 = 256 + field image 20
  total : field image 52 = field image 48 + field image 36
  size : image.length = field image 52
  size_le : image.length ≤ contract.maximum_capsule_bytes
  reserved : field image 56 = 0 ∧ field image 60 = 0
  padding : ∀ b ∈ (image.drop 128).take 128, b = 0
  header_hash : sha256 (image.take 96) = (image.drop 96).take 32
  payload_hash : sha256 (image.drop 256) = (image.drop 64).take 32

/-- The extents an image announces. -/
def extents (image : List Byte) : ImageInfo :=
  ⟨field image 52, field image 20, field image 24, field image 28, field image 48, field image 36,
    field image 44⟩

theorem entry_iff (address : ℕ) {code : ℕ} (hpos : 0 < code) (hwords : code % 4 = 0) :
    entry address code = true ↔ EntryIn address code := by
  have hin : entry address code = true ↔ address % 2 = 1 ∧
      kSlotAddress + kCodeOffset ≤ address - address % 2 ∧
      address - address % 2 - (kSlotAddress + kCodeOffset) < code ∧
      2 ≤ code - (address - address % 2 - (kSlotAddress + kCodeOffset)) := by
    simp only [entry, Bool.and_eq_true, decide_eq_true_eq, ge_iff_le, and_assoc]
  rw [hin]
  constructor
  · rintro ⟨hodd, hfirst, hless, hroom⟩
    exact ⟨hodd, by omega, by omega⟩
  · rintro ⟨hodd, hfirst, hlast⟩
    refine ⟨hodd, ?_, ?_, ?_⟩
    · omega
    · omega
    · omega

/-- **The checks add up to the layout.** -/
theorem validate_image_iff_layout (contract : Contract) (image : List Byte) (info : ImageInfo) :
    validate_image (some image) image.length contract = .ok info ↔
      Layout contract image ∧ info = extents image := by
  have hrest : ∀ n, image.length = n → (image.drop kCodeOffset).take (n - kCodeOffset) = image.drop 256 := by
    rintro n rfl
    exact List.take_of_length_le (by rw [List.length_drop])
  simp only [validate_image, check_eq_ok, ne_eq, not_not, not_lt, Bool.or_eq_true, decide_eq_true_eq,
    not_or, Bool.not_eq_true', Bool.not_eq_false, Bool.not_eq_true, any_ne_zero_eq_false, gt_iff_lt]
  constructor
  · rintro ⟨hcontract, hroom, hmax, magic, version, header, board, hapi, address, ⟨⟨hpos, hwords⟩, hle⟩,
      ⟨hsetup, hloop⟩, ⟨⟨⟨⟨⟨hstate, hdata⟩, hbss⟩, hdata_le⟩, hbss_le⟩, hbss_at⟩, ⟨hload, htotal_le⟩,
      ⟨htotal, hsize⟩, hreserved, padding, hhash, hpayload, hinfo⟩
    have hpos' : 0 < field image 20 := Nat.pos_of_ne_zero hpos
    rw [hrest _ hsize] at hpayload
    refine ⟨⟨hcontract, magic, version, header, board, hapi, address, hpos', hwords,
      (entry_iff _ hpos' hwords).mp hsetup, (entry_iff _ hpos' hwords).mp hloop, hstate, hdata, hbss, ?_,
      hbss_at, hload, ?_, hsize.trans htotal.symm, hmax, hreserved, padding, hhash, hpayload⟩, ?_⟩
    · unfold field
      omega
    · exact htotal.trans (congrArg (· + field image 36) hload.symm)
    · rw [← Except.ok.inj hinfo, ← htotal, ← hload]
      rfl
  · rintro ⟨h, rfl⟩
    have hsize : image.length = 256 + field image 20 + field image 36 := by rw [h.size, h.total, h.load]
    have hmax := h.size_le
    have hstate := h.state_le
    have hpayload := h.payload_hash
    rw [← hrest _ hsize] at hpayload
    refine ⟨h.contract_ok, by unfold kCodeOffset; omega, hmax, h.magic, h.version, h.header_bytes, h.board,
      h.api, h.code_address, ⟨⟨h.code_pos.ne', h.code_words⟩, ?_⟩,
      ⟨(entry_iff _ h.code_pos h.code_words).mpr h.setup, (entry_iff _ h.code_pos h.code_words).mpr h.loop⟩,
      ⟨⟨⟨⟨⟨h.state_address, h.data_words⟩, h.bss_words⟩, ?_⟩, ?_⟩, h.bss_address⟩, ⟨h.load, ?_⟩, ⟨?_, hsize⟩,
      h.reserved, h.padding, h.header_hash, hpayload, ?_⟩
    · change field image 20 ≤ _ - 256
      omega
    · exact le_trans (Nat.le_add_right _ _) hstate
    · change field image 44 ≤ _ - field image 36
      omega
    · change field image 36 ≤ _ - (256 + field image 20)
      omega
    · exact h.size.symm.trans hsize
    · rw [extents, ← h.size, hsize, h.load]
      rfl

/-- **FMS2 validation is exact and free of wrap.** For every contract and every byte string, the
checks in 32-bit arithmetic run without a sum or difference that wraps and without a read past
the image; they accept exactly the layout of an image, whose extents they report, and every
refusal comes with extents that are all zero. -/
theorem validate_image_exact (contract : Contract) (image : List Byte) :
    ∃ r, Words.validate_image image image.length contract = .ok r ∧
      (r.error = none ↔ Layout contract image) ∧ (r.error = none → r.image = extents image) ∧
      (r.error ≠ none → r.image = {}) := by
  refine ⟨_, Words.validate_image_eq image contract, ?_⟩
  have hiff := validate_image_iff_layout contract image
  cases hv : validate_image (some image) image.length contract with
  | ok info =>
    obtain ⟨hlayout, hinfo⟩ := (hiff info).mp hv
    exact ⟨iff_of_true rfl hlayout, fun _ => hinfo, fun h => absurd rfl h⟩
  | error error =>
    refine ⟨iff_of_false (by rintro ⟨⟩) ?_, by rintro ⟨⟩, fun _ => rfl⟩
    intro hlayout
    have hok := (hiff (extents image)).mpr ⟨hlayout, rfl⟩
    rw [hv] at hok
    cases hok

end Firmingo.Managed.Stateful
