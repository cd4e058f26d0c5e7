/-
The first image of a board: `compose` of `experiments/managed_sketch/compose_initial.py` and of
`compose_stateful_initial.py`, with `checked_resident_bytes` of `build_composite.py`.

A UF2 file is a sequence of 512-byte blocks, each with an address and up to 476 bytes for it. What
it means is the map from addresses to bytes that its blocks write. The scripts check the resident's
blocks, number them again and append the sixteen blocks of the first managed sector; the map of the
result is that of the resident and the sector, and nothing else.
-/
import Firmingo.FlashPort
import Firmingo.ModuleElf

set_option autoImplicit false

open Octets

namespace Firmingo.Managed.Composite

open Builder (raise_if pack_words bind_eq_ok pure_eq_ok raise_if_eq_ok)

/-! ## Blocks -/

def MAGIC_START : ℕ × ℕ := (0x0A324655, 0x9E5D5157)
def MAGIC_END : ℕ := 0x0AB16F30
def FAMILY : ℕ := 0xE48BFF56
def SECTOR_BYTES : ℕ := 4096

/-- `data[i:i + 512]` for every multiple of 512. -/
def blocks_of (data : List Byte) : List (List Byte) :=
  (List.range (data.length / 512)).map fun k => (data.drop (512 * k)).take 512

/-- The fields of `"<8I"`, and the last word. -/
structure BlockFields where
  magic : ℕ × ℕ
  flags : ℕ
  address : ℕ
  payload : ℕ
  block_number : ℕ
  total : ℕ
  family : ℕ
  magic_end : ℕ
  deriving DecidableEq

/-- `struct.unpack_from` of a block. -/
def fields (block : List Byte) : BlockFields where
  magic := (word32_le block, word32_le (block.drop 4))
  flags := word32_le (block.drop 8)
  address := word32_le (block.drop 12)
  payload := word32_le (block.drop 16)
  block_number := word32_le (block.drop 20)
  total := word32_le (block.drop 24)
  family := word32_le (block.drop 28)
  magic_end := word32_le (block.drop 508)

/-- The body of the loop of `checked_resident_bytes`, with the addresses so far. -/
def check_block (count index : ℕ) (addresses : List ℕ) (block : List Byte) : Except PyError (List ℕ) := do
  let f := fields block
  raise_if (f.magic ≠ MAGIC_START || f.magic_end ≠ MAGIC_END) "resident UF2 magic is invalid"
  raise_if ((f.flags, f.payload, f.family) ≠ (0x2000, 256, FAMILY)) "resident UF2 profile is invalid"
  raise_if (f.block_number ≠ index || f.total ≠ count) "resident UF2 block ordering is invalid"
  raise_if (!(0x10000000 ≤ f.address && f.address < 0x10200000) || f.address % 256 ≠ 0)
    "resident UF2 writes outside its reservation"
  raise_if (f.address ∈ addresses) "resident UF2 has duplicate addresses"
  return f.address :: addresses

def check_blocks (count : ℕ) : ℕ → List ℕ → List (List Byte) → Except PyError Unit
  | _, _, [] => .ok ()
  | index, addresses, block :: rest => do
    let addresses ← check_block count index addresses block
    check_blocks count (index + 1) addresses rest

/-- `checked_resident_bytes`. -/
def checked_resident_bytes (data : List Byte) : Except PyError (List (List Byte)) := do
  raise_if (data = [] || data.length % 512 ≠ 0) "resident UF2 size is invalid"
  check_blocks (blocks_of data).length 0 [] (blocks_of data)
  return blocks_of data

/-! ## Composing -/

/-- The loop that numbers the resident's blocks. -/
def renumber (total : ℕ) : ℕ → List (List Byte) → Except PyError (List (List Byte))
  | _, [] => .ok []
  | index, block :: rest => do
    let words ← pack_words [index, total]
    let rest ← renumber total (index + 1) rest
    return copy_at block 20 words :: rest

/-- A block of the sector. -/
def sector_block (index total offset : ℕ) (sector : List Byte) : Except PyError (List Byte) := do
  let header ← pack_words [MAGIC_START.1, MAGIC_START.2, 0x2000, SLOT + offset, 256, index, total, FAMILY]
  let magic_end ← pack_words [MAGIC_END]
  let block := copy_at (List.replicate 512 0) 0 header
  let block := copy_at block 32 ((sector.drop offset).take 256)
  return copy_at block 508 magic_end

/-- The loop that appends the blocks of the sector. -/
def append_sector (total : ℕ) (sector : List Byte) :
    List ℕ → List (List Byte) → Except PyError (List (List Byte))
  | [], blocks => .ok blocks
  | offset :: offsets, blocks => do
    let block ← sector_block blocks.length total offset sector
    append_sector total sector offsets (blocks ++ [block])

/-- The capsule, filled up with erased bytes. -/
def sector_of (capsule : List Byte) : List Byte :=
  capsule ++ List.replicate (SECTOR_BYTES - capsule.length) 0xff

/-- `range(0, SECTOR_BYTES, 256)`. -/
def sector_offsets : List ℕ := (List.range 16).map (256 * ·)

/-- What both scripts do with checked blocks and a checked capsule. -/
def with_sector (blocks : List (List Byte)) (capsule : List Byte) : Except PyError (List Byte) := do
  let total := blocks.length + SECTOR_BYTES / 256
  let blocks ← renumber total 0 blocks
  let blocks ← append_sector total (sector_of capsule) sector_offsets blocks
  return blocks.flatten

/-- `compose` of `compose_initial.py`. -/
def compose (resident capsule : List Byte) (expected_api : ℤ) : Except PyError (List Byte) := do
  let blocks ← checked_resident_bytes resident
  raise_if (capsule.length > SECTOR_BYTES) "capsule exceeds the resident's 4096-byte upload limit"
  let api ← checked_capsule capsule
  raise_if ((api : ℤ) ≠ expected_api) "capsule does not bind the selected resident API address"
  with_sector blocks capsule

/-! ## Composing with FMS2 -/

/-- What a run of the validator gives. -/
structure CheckRun where
  returncode : ℤ
  stdout : String
  stderr : String

/-- `str.isspace` of a character: the white space of Unicode and the four separators. -/
def is_space (c : Char) : Bool :=
  let n := c.toNat
  (0x09 ≤ n && n ≤ 0x0d) || (0x1c ≤ n && n ≤ 0x20) || (0x2000 ≤ n && n ≤ 0x200a) ||
    [0x85, 0xa0, 0x1680, 0x2028, 0x2029, 0x202f, 0x205f, 0x3000].contains n

/-- `str.strip`. -/
def strip (s : String) : String :=
  String.ofList ((s.toList.dropWhile is_space).reverse.dropWhile is_space).reverse

/-- The dictionary `memory`: of two blocks for one key, the later counts. -/
def memory (blocks : List (List Byte)) (key : ℤ) : Option Byte :=
  blocks.reverse.findSome? fun block =>
    let address : ℤ := (fields block).address
    if address ≤ key ∧ key < address + 256 then some (block.getD (32 + (key - address).toNat) 0) else none

/-- The resident's API table. -/
def table_at (blocks : List (List Byte)) (api : ℤ) : Except PyError (List Byte) :=
  match (List.range 52).mapM fun i => memory blocks (api + i) with
  | some table => .ok table
  | none => .error (.value_error "Selected resident API is absent from UF2")

/-- `compose` of `compose_stateful_initial.py`; the validator is a program of its own. -/
def compose_stateful (resident capsule : List Byte) (api state capacity : ℤ)
    (validator : List Byte → ℤ → ℤ → ℤ → Except PyError CheckRun) : Except PyError (List Byte × String) := do
  let blocks ← checked_resident_bytes resident
  let table ← table_at blocks api
  raise_if ((word32_le table, word16_le (table.drop 4), word16_le (table.drop 6)) ≠ (0x49504146, 2, 52)
      || ((word32_le (table.drop 40) : ℤ), (word32_le (table.drop 44) : ℤ), word32_le (table.drop 48))
        ≠ (state, capacity, 4096))
    "Selected API/state facts do not match the actual resident"
  raise_if (!(260 ≤ capsule.length && capsule.length ≤ 4096)) "FMS2 capsule exceeds initial sector limit"
  let check ← validator capsule api state capacity
  raise_if (check.returncode ≠ 0 || check.stdout.length > 8192 || check.stderr.length > 8192)
    ("Production FMS2 checker rejected the selected capsule: " ++ String.ofList (check.stderr.toList.take 512))
  let image ← with_sector blocks capsule
  return (image, strip check.stdout)

/-! ## The file and its blocks -/

variable {blocks : List (List Byte)}

/-- A file of whole blocks is cut into them again. -/
theorem blocks_of_flatten (h : ∀ block ∈ blocks, block.length = 512) :
    blocks_of blocks.flatten = blocks := by
  induction blocks with
  | nil => rfl
  | cons block rest ih =>
    have hblock := h block (by simp)
    have hcount : (block ++ rest.flatten).length / 512 = rest.flatten.length / 512 + 1 := by
      rw [List.length_append, hblock]
      omega
    have hrest := ih fun b hb => h b (by simp [hb])
    rw [List.flatten_cons, blocks_of, hcount, List.range_succ_eq_map, List.map_cons, List.map_map]
    congr 1
    · rw [Nat.mul_zero, List.drop_zero, ← hblock, List.take_left]
    · refine Eq.trans (List.map_congr_left ?_) hrest
      intro k _
      simp only [Function.comp_apply]
      rw [show 512 * (k + 1) = block.length + 512 * k by omega, ← List.drop_drop, List.drop_left]

theorem blocks_of_length {data : List Byte} {block : List Byte} (h : block ∈ blocks_of data) :
    block.length = 512 := by
  obtain ⟨k, hk, rfl⟩ := List.mem_map.mp h
  rw [List.mem_range] at hk
  rw [List.length_take, List.length_drop]
  omega

/-- What a block says about an address. -/
def written (a : ℕ) (block : List Byte) : Option Byte :=
  let f := fields block
  if f.address ≤ a ∧ a < f.address + f.payload then some (block.getD (32 + (a - f.address)) 0) else none

/-- The map from addresses to bytes that a file denotes. -/
def flash (image : List Byte) (a : ℕ) : Option Byte := (blocks_of image).findSome? (written a)

/-- A word is its four bytes. -/
theorem word32_le_congr {x y : List Byte} {k : ℕ}
    (h : ∀ j, k ≤ j → j < k + 4 → x.getD j 0 = y.getD j 0) : word32_le (x.drop k) = word32_le (y.drop k) := by
  simp only [word32_le, getD_drop]
  rw [h (k + 0) (by omega) (by omega), h (k + 1) (by omega) (by omega), h (k + 2) (by omega) (by omega),
    h (k + 3) (by omega) (by omega)]

/-! ## The resident's blocks -/

/-- A block of an accepted resident. -/
structure ResidentBlock (block : List Byte) : Prop where
  magic : (fields block).magic = MAGIC_START
  magic_end : (fields block).magic_end = MAGIC_END
  payload : (fields block).payload = 256
  high : (fields block).address < 0x10200000
  aligned : (fields block).address % 256 = 0

theorem check_block_eq_ok {count index : ℕ} {addresses addresses' : List ℕ} {block : List Byte}
    (h : check_block count index addresses block = .ok addresses') :
    ResidentBlock block ∧ (fields block).address ∉ addresses ∧
      addresses' = (fields block).address :: addresses := by
  simp only [check_block, bind_eq_ok, pure_eq_ok, raise_if_eq_ok, Bool.or_eq_false_iff, decide_eq_false_iff_not,
    not_not, Bool.not_eq_false', Bool.and_eq_true, decide_eq_true_eq, Prod.mk.injEq, exists_const] at h
  obtain ⟨⟨hmagic, hend⟩, ⟨-, hpayload, -⟩, -, ⟨⟨-, hhigh⟩, haligned⟩, hnew, hnext⟩ := h
  exact ⟨⟨hmagic, hend, hpayload, hhigh, haligned⟩, hnew, hnext.symm⟩

/-- The loop lets through blocks of the resident with addresses of their own. -/
theorem check_blocks_eq_ok {count index : ℕ} {addresses : List ℕ} {u : Unit}
    (h : check_blocks count index addresses blocks = .ok u) :
    (∀ block ∈ blocks, ResidentBlock block ∧ (fields block).address ∉ addresses) ∧
      (blocks.map fun block => (fields block).address).Nodup := by
  induction blocks generalizing index addresses with
  | nil => exact ⟨fun _ hb => (List.not_mem_nil hb).elim, List.nodup_nil⟩
  | cons block rest ih =>
    rw [check_blocks, bind_eq_ok] at h
    obtain ⟨addresses', hblock, hrest⟩ := h
    obtain ⟨hresident, hnew, rfl⟩ := check_block_eq_ok hblock
    obtain ⟨hall, hnodup⟩ := ih hrest
    refine ⟨?_, ?_⟩
    · intro b hb
      rcases List.mem_cons.mp hb with rfl | hb
      · exact ⟨hresident, hnew⟩
      · exact ⟨(hall b hb).1, fun hmem => (hall b hb).2 (List.mem_cons_of_mem _ hmem)⟩
    · rw [List.map_cons, List.nodup_cons]
      refine ⟨?_, hnodup⟩
      intro hmem
      obtain ⟨b, hb, hsame⟩ := List.mem_map.mp hmem
      exact (hall b hb).2 (by rw [hsame]; exact List.mem_cons_self)

theorem checked_resident_bytes_eq_ok {data : List Byte} (h : checked_resident_bytes data = .ok blocks) :
    blocks = blocks_of data ∧ (∀ block ∈ blocks, ResidentBlock block) ∧
      (blocks.map fun block => (fields block).address).Nodup := by
  rw [checked_resident_bytes, bind_eq_ok] at h
  obtain ⟨-, -, h⟩ := h
  rw [bind_eq_ok] at h
  obtain ⟨u, hchecked, h⟩ := h
  obtain rfl := (pure_eq_ok _ _).mp h
  obtain ⟨hall, hnodup⟩ := check_blocks_eq_ok hchecked
  exact ⟨rfl, fun block hb => (hall block hb).1, hnodup⟩

/-! ## Numbering -/

section Numbering

variable {total index : ℕ} {block : List Byte}

/-- A block with another number and total. -/
def numbered (total index : ℕ) (block : List Byte) : List Byte :=
  copy_at block 20 ([index, total].flatMap bytes32_le)

def numbered_blocks (total : ℕ) : ℕ → List (List Byte) → List (List Byte)
  | _, [] => []
  | index, block :: rest => numbered total index block :: numbered_blocks total (index + 1) rest

/-- The numbers fit their fields. -/
theorem renumber_eq_ok {out : List (List Byte)} (h : renumber total index blocks = .ok out) :
    out = numbered_blocks total index blocks ∧ ∀ k < blocks.length, index + k < 2 ^ 32 ∧ total < 2 ^ 32 := by
  induction blocks generalizing index out with
  | nil =>
    cases h
    exact ⟨rfl, fun k hk => absurd hk (Nat.not_lt_zero k)⟩
  | cons block rest ih =>
    simp only [renumber, bind_eq_ok, pure_eq_ok] at h
    obtain ⟨words, hwords, out', hrest, rfl⟩ := h
    obtain ⟨hfits, rfl⟩ := Builder.pack_words_ok hwords
    obtain ⟨rfl, hlater⟩ := ih hrest
    refine ⟨rfl, ?_⟩
    intro k hk
    cases k with
    | zero => exact ⟨hfits index (by simp), hfits total (by simp)⟩
    | succ k =>
      have hnext := hlater k (by simpa using hk)
      rw [Nat.add_right_comm] at hnext
      exact hnext

theorem numbered_blocks_getElem? (blocks : List (List Byte)) (k : ℕ) :
    (numbered_blocks total index blocks)[k]? = blocks[k]?.map (numbered total (index + k)) := by
  induction blocks generalizing index k with
  | nil => rfl
  | cons block rest ih =>
    cases k with
    | zero => rfl
    | succ k =>
      rw [numbered_blocks, List.getElem?_cons_succ, List.getElem?_cons_succ, ih, Nat.add_right_comm,
        Nat.add_assoc]

theorem numbered_getD (hlen : block.length = 512) {j : ℕ} (hj : ¬ (20 ≤ j ∧ j < 28)) :
    (numbered total index block).getD j 0 = block.getD j 0 := by
  rw [numbered, copy_at_getD _ _ (by simp [hlen])]
  exact if_neg (by simpa using hj)

theorem numbered_length (hlen : block.length = 512) : (numbered total index block).length = 512 := by
  rw [numbered, copy_at_length _ _ (by simp [hlen]), hlen]

/-- Numbering changes the two fields and no other. -/
theorem fields_numbered (hlen : block.length = 512) (hindex : index < 2 ^ 32) (htotal : total < 2 ^ 32) :
    fields (numbered total index block) = { fields block with block_number := index, total := total } := by
  have hword : ∀ k, k + 4 ≤ 20 ∨ 28 ≤ k →
      word32_le ((numbered total index block).drop k) = word32_le (block.drop k) := by
    intro k hk
    exact word32_le_congr fun j hlow hhigh => numbered_getD hlen (by omega)
  have hfront : (block.take 20).length = 20 := by
    rw [List.length_take, hlen]
    rfl
  have hdrop : (numbered total index block).drop 20
      = bytes32_le index ++ (bytes32_le total ++ block.drop 28) := by
    rw [numbered, copy_at, List.append_assoc]
    nth_rewrite 1 [← hfront]
    rw [List.drop_left]
    simp
  have hnumber : word32_le ((numbered total index block).drop 20) = index := by
    rw [hdrop, word32_le_bytes32_le hindex]
  have hcount : word32_le ((numbered total index block).drop 24) = total := by
    rw [show 24 = 20 + (bytes32_le index).length from rfl, ← List.drop_drop, hdrop, List.drop_left,
      word32_le_bytes32_le htotal]
  have hfirst := hword 0 (by omega)
  rw [List.drop_zero, List.drop_zero] at hfirst
  simp only [fields, hfirst, hnumber, hcount, hword 4 (by omega), hword 8 (by omega), hword 12 (by omega),
    hword 16 (by omega), hword 28 (by omega), hword 508 (by omega)]

theorem written_numbered (hlen : block.length = 512) (hindex : index < 2 ^ 32) (htotal : total < 2 ^ 32)
    (a : ℕ) : written a (numbered total index block) = written a block := by
  simp only [written, fields_numbered hlen hindex htotal]
  rw [numbered_getD hlen (by omega)]

end Numbering

/-! ## The sector's blocks -/

variable {offsets : List ℕ}

section Sector

variable {total index offset : ℕ} {sector : List Byte}

/-- The words of a block of the sector. -/
def block_words (index total offset : ℕ) : List ℕ :=
  [MAGIC_START.1, MAGIC_START.2, 0x2000, SLOT + offset, 256, index, total, FAMILY]

/-- A block of the sector, in order. -/
def laid_out (total index offset : ℕ) (sector : List Byte) : List Byte :=
  (block_words index total offset).flatMap bytes32_le ++ ((sector.drop offset).take 256
    ++ (List.replicate 220 0 ++ bytes32_le MAGIC_END))

def sector_blocks (total : ℕ) (sector : List Byte) : ℕ → List ℕ → List (List Byte)
  | _, [] => []
  | index, offset :: offsets =>
    laid_out total index offset sector :: sector_blocks total sector (index + 1) offsets

theorem block_words_length (index total offset : ℕ) :
    ((block_words index total offset).flatMap bytes32_le).length = 32 := by
  simp [block_words]

/-- A copy over zeros that follow what is there. -/
theorem copy_at_zeros (front data : List Byte) (rest : ℕ) :
    copy_at (front ++ List.replicate (data.length + rest) 0) front.length data
      = front ++ data ++ List.replicate rest 0 := by
  rw [copy_at, List.take_left, ← List.drop_drop, List.drop_left, List.drop_replicate, Nat.add_sub_cancel_left]

/-- Three copies into zeros: the header, the payload behind it, and the end. -/
theorem copy_at_three {words payload last : List Byte} {a b d : ℕ} (c : ℕ) (hwords : words.length = a)
    (hpayload : payload.length = b) (hlast : last.length = d) :
    copy_at (copy_at (copy_at (List.replicate (a + (b + (c + d))) 0) 0 words) a payload) (a + b + c) last
      = words ++ (payload ++ (List.replicate c 0 ++ last)) := by
  subst hwords hpayload hlast
  have hfirst := copy_at_zeros [] words (payload.length + (c + last.length))
  rw [List.nil_append, List.length_nil, List.nil_append] at hfirst
  have hthird := copy_at_zeros (words ++ payload ++ List.replicate c 0) last 0
  rw [Nat.add_zero, List.append_assoc, List.append_assoc (words ++ payload), List.replicate_append_replicate,
    List.length_append, List.length_append, List.length_replicate] at hthird
  rw [hfirst, copy_at_zeros, hthird]
  simp only [List.append_assoc, List.replicate_zero, List.append_nil]

/-- A block that was packed is laid out in order, and its words are in range. -/
theorem sector_block_eq_ok {block : List Byte} (h : sector_block index total offset sector = .ok block)
    (hfits : offset + 256 ≤ sector.length) :
    block = laid_out total index offset sector ∧ ∀ w ∈ block_words index total offset, w < 2 ^ 32 := by
  rw [sector_block, show [MAGIC_START.1, MAGIC_START.2, 0x2000, SLOT + offset, 256, index, total, FAMILY]
    = block_words index total offset from rfl, bind_eq_ok] at h
  obtain ⟨header, hheader, h⟩ := h
  rw [bind_eq_ok] at h
  obtain ⟨magic, hmagic, h⟩ := h
  obtain rfl := (pure_eq_ok _ _).mp h
  obtain ⟨hwords, rfl⟩ := Builder.pack_words_ok hheader
  obtain ⟨-, rfl⟩ := Builder.pack_words_ok hmagic
  have hpayload : ((sector.drop offset).take 256).length = 256 := by
    rw [List.length_take, List.length_drop]
    omega
  have hone : [MAGIC_END].flatMap bytes32_le = bytes32_le MAGIC_END := List.flatMap_singleton _ _
  have hthree := copy_at_three 220 (block_words_length index total offset) hpayload (bytes32_le_length MAGIC_END)
  rw [show 32 + (256 + (220 + 4)) = 512 from rfl, show 32 + 256 + 220 = 508 from rfl] at hthree
  rw [hone, hthree]
  exact ⟨rfl, hwords⟩

theorem laid_out_length (hfits : offset + 256 ≤ sector.length) :
    (laid_out total index offset sector).length = 512 := by
  have hheader := block_words_length index total offset
  simp only [laid_out, List.length_append, hheader, List.length_take, List.length_drop, List.length_replicate,
    bytes32_le_length]
  omega

/-- The reader finds in a block what the writer put there. -/
theorem fields_laid_out (hfits : offset + 256 ≤ sector.length)
    (hwords : ∀ w ∈ block_words index total offset, w < 2 ^ 32) :
    fields (laid_out total index offset sector)
      = ⟨MAGIC_START, 0x2000, SLOT + offset, 256, index, total, FAMILY, MAGIC_END⟩ := by
  have hword : ∀ k (hk : k < 8), word32_le ((laid_out total index offset sector).drop (4 * k))
      = (block_words index total offset)[k] := fun k hk => word32_le_table hwords _ hk
  have hpayload : ((sector.drop offset).take 256).length = 256 := by
    rw [List.length_take, List.length_drop]
    omega
  have hend : (laid_out total index offset sector).drop 508 = bytes32_le MAGIC_END := by
    have hfront : ((block_words index total offset).flatMap bytes32_le ++ ((sector.drop offset).take 256
        ++ List.replicate 220 0)).length = 508 := by
      simp only [List.length_append, block_words_length, hpayload, List.length_replicate]
    rw [laid_out, ← List.append_assoc _ _ (bytes32_le MAGIC_END), ← List.append_assoc]
    nth_rewrite 1 [← hfront]
    rw [List.drop_left]
  have hlast : word32_le ((laid_out total index offset sector).drop 508) = MAGIC_END := by
    rw [hend, ← List.append_nil (bytes32_le MAGIC_END), word32_le_bytes32_le (by decide)]
  have hfirst := hword 0 (by decide)
  rw [Nat.mul_zero, List.drop_zero] at hfirst
  unfold fields
  rw [hfirst, hlast, hword 1 (by decide), hword 2 (by decide), hword 3 (by decide), hword 4 (by decide),
    hword 5 (by decide), hword 6 (by decide), hword 7 (by decide)]
  rfl

/-- The loop over the offsets appends one block for each. -/
theorem append_sector_eq_ok {out : List (List Byte)}
    (h : append_sector total sector offsets blocks = .ok out)
    (hfits : ∀ offset ∈ offsets, offset + 256 ≤ sector.length) :
    out = blocks ++ sector_blocks total sector blocks.length offsets ∧
      ∀ k offset, offsets[k]? = some offset → ∀ w ∈ block_words (blocks.length + k) total offset, w < 2 ^ 32 := by
  induction offsets generalizing blocks with
  | nil =>
    cases h
    exact ⟨(List.append_nil _).symm, fun k offset hk => by simp at hk⟩
  | cons offset offsets ih =>
    rw [append_sector, bind_eq_ok] at h
    obtain ⟨block, hblock, hrest⟩ := h
    obtain ⟨rfl, hwords⟩ := sector_block_eq_ok hblock (hfits offset (by simp))
    obtain ⟨rfl, hlater⟩ := ih hrest fun o ho => hfits o (by simp [ho])
    rw [List.length_append, List.length_singleton] at hlater ⊢
    refine ⟨by rw [List.append_assoc]; rfl, ?_⟩
    intro k o hk
    cases k with
    | zero =>
      obtain rfl := Option.some.inj hk
      exact hwords
    | succ k =>
      have hnext := hlater k o (by simpa using hk)
      rw [Nat.add_right_comm] at hnext
      exact hnext

theorem sector_blocks_getElem? (offsets : List ℕ) (k : ℕ) :
    (sector_blocks total sector index offsets)[k]?
      = offsets[k]?.map fun offset => laid_out total (index + k) offset sector := by
  induction offsets generalizing index k with
  | nil => rfl
  | cons offset offsets ih =>
    cases k with
    | zero => rfl
    | succ k =>
      rw [sector_blocks, List.getElem?_cons_succ, List.getElem?_cons_succ, ih, Nat.add_right_comm,
        Nat.add_assoc]

theorem laid_out_getD (hfits : offset + 256 ≤ sector.length) {i : ℕ} (hi : i < 256) :
    (laid_out total index offset sector).getD (32 + i) 0 = sector.getD (offset + i) 0 := by
  have hheader := block_words_length index total offset
  rw [laid_out, List.getD_append_right _ _ _ _ (by omega), hheader, Nat.add_sub_cancel_left,
    List.getD_append _ _ _ _ (by rw [List.length_take, List.length_drop]; omega), getD_take_of_lt _ hi, getD_drop]

/-- What a block of the sector says about an address. -/
theorem written_laid_out (hfits : offset + 256 ≤ sector.length)
    (hwords : ∀ w ∈ block_words index total offset, w < 2 ^ 32) (a : ℕ) :
    written a (laid_out total index offset sector) =
      if SLOT + offset ≤ a ∧ a < SLOT + offset + 256 then some (sector.getD (a - SLOT) 0) else none := by
  simp only [written, fields_laid_out hfits hwords]
  split
  · next hin =>
    rw [laid_out_getD hfits (by omega), show offset + (a - (SLOT + offset)) = a - SLOT by omega]
  · rfl

/-- The byte at an address comes from the block that covers it. -/
theorem written_sector_blocks (hfits : ∀ offset ∈ offsets, offset + 256 ≤ sector.length)
    (hwords : ∀ k offset, offsets[k]? = some offset → ∀ w ∈ block_words (index + k) total offset, w < 2 ^ 32)
    (a : ℕ) : (sector_blocks total sector index offsets).findSome? (written a) =
      offsets.findSome? fun offset =>
        if SLOT + offset ≤ a ∧ a < SLOT + offset + 256 then some (sector.getD (a - SLOT) 0) else none := by
  induction offsets generalizing index with
  | nil => rfl
  | cons offset offsets ih =>
    have hhere := written_laid_out (hfits offset (by simp)) (hwords 0 offset rfl) a
    have hrest := @ih (index + 1) (fun o ho => hfits o (by simp [ho])) fun k o hk => by
      rw [Nat.add_right_comm]
      exact hwords (k + 1) o (by simpa using hk)
    rw [sector_blocks, List.findSome?_cons, List.findSome?_cons, hrest]
    rw [Nat.add_zero] at hhere
    rw [hhere]

end Sector

/-- Consecutive ranges make one. -/
theorem findSome?_ranges {α : Type} (start a n : ℕ) (v : α) :
    ((List.range n).findSome? fun k => if start + 256 * k ≤ a ∧ a < start + 256 * k + 256 then some v else none)
      = if start ≤ a ∧ a < start + 256 * n then some v else none := by
  induction n with
  | zero =>
    rw [if_neg (by omega)]
    rfl
  | succ n ih =>
    rw [List.range_succ, List.findSome?_append, ih, List.findSome?_singleton]
    by_cases hbefore : start ≤ a ∧ a < start + 256 * n
    · rw [if_pos hbefore, Option.some_or, if_pos (by omega)]
    · rw [if_neg hbefore, Option.none_or]
      by_cases hhere : start + 256 * n ≤ a ∧ a < start + 256 * n + 256
      · rw [if_pos hhere, if_pos (by omega)]
      · rw [if_neg hhere, if_neg (by omega)]

/-! ## The composition -/

/-- An image is made of a resident and a capsule: whole blocks, numbered, with addresses of their
own; the resident's blocks as they were but for number and total; and the map of the resident with
the sector. -/
structure Composes (resident capsule image : List Byte) : Prop where
  whole : image.length = 512 * (blocks_of image).length
  count : (blocks_of image).length = (blocks_of resident).length + 16
  numbered : ∀ (k : ℕ) (block : List Byte), (blocks_of image)[k]? = some block →
    (fields block).magic = MAGIC_START ∧ (fields block).magic_end = MAGIC_END ∧
      (fields block).block_number = k ∧ (fields block).total = (blocks_of image).length
  distinct : ((blocks_of image).map fun block => (fields block).address).Nodup
  kept : ∀ (k : ℕ) (block block' : List Byte), (blocks_of resident)[k]? = some block →
    (blocks_of image)[k]? = some block' → ∀ j, ¬ (20 ≤ j ∧ j < 28) → block'.getD j 0 = block.getD j 0
  flash : ∀ a, flash image a =
    if 0x10200000 ≤ a ∧ a < 0x10200000 + 4096 then some ((sector_of capsule).getD (a - 0x10200000) 0)
    else Composite.flash resident a

theorem sector_of_length {capsule : List Byte} (h : capsule.length ≤ SECTOR_BYTES) :
    (sector_of capsule).length = SECTOR_BYTES := by
  rw [sector_of, List.length_append, List.length_replicate]
  omega

theorem sector_offsets_fit {capsule : List Byte} (h : capsule.length ≤ SECTOR_BYTES) :
    ∀ offset ∈ sector_offsets, offset + 256 ≤ (sector_of capsule).length := by
  intro offset hoffset
  obtain ⟨k, hk, rfl⟩ := List.mem_map.mp hoffset
  rw [List.mem_range] at hk
  rw [sector_of_length h, SECTOR_BYTES]
  omega

/-- What the resident's blocks say is below the slot. -/
theorem written_resident {block : List Byte} (h : ResidentBlock block) {a : ℕ} (ha : 0x10200000 ≤ a) :
    written a block = none := by
  have hhigh := h.high
  have haligned := h.aligned
  rw [written, h.payload]
  exact if_neg (by omega)

/-- The map of numbered blocks is that of the blocks. -/
theorem written_numbered_blocks {total index : ℕ} (hlen : ∀ block ∈ blocks, block.length = 512)
    (hnumbers : ∀ k < blocks.length, index + k < 2 ^ 32 ∧ total < 2 ^ 32) (a : ℕ) :
    (numbered_blocks total index blocks).findSome? (written a) = blocks.findSome? (written a) := by
  induction blocks generalizing index with
  | nil => rfl
  | cons block rest ih =>
    have hhere := hnumbers 0 (by simp)
    have hrest := @ih (index + 1) (fun b hb => hlen b (by simp [hb])) fun k hk => by
      rw [Nat.add_right_comm]
      exact hnumbers (k + 1) (by simpa using hk)
    rw [numbered_blocks, List.findSome?_cons, List.findSome?_cons, hrest,
      written_numbered (hlen block (by simp)) (show index < 2 ^ 32 from hhere.1) hhere.2]

theorem numbered_blocks_length (total index : ℕ) (blocks : List (List Byte)) :
    (numbered_blocks total index blocks).length = blocks.length := by
  induction blocks generalizing index with
  | nil => rfl
  | cons block rest ih => rw [numbered_blocks, List.length_cons, ih, List.length_cons]

theorem sector_blocks_length (total : ℕ) (sector : List Byte) (index : ℕ) (offsets : List ℕ) :
    (sector_blocks total sector index offsets).length = offsets.length := by
  induction offsets generalizing index with
  | nil => rfl
  | cons offset offsets ih => rw [sector_blocks, List.length_cons, ih, List.length_cons]

/-- Numbering keeps the addresses. -/
theorem numbered_blocks_addresses {total index : ℕ} (hlen : ∀ block ∈ blocks, block.length = 512)
    (hnumbers : ∀ k < blocks.length, index + k < 2 ^ 32 ∧ total < 2 ^ 32) :
    (numbered_blocks total index blocks).map (fun block => (fields block).address)
      = blocks.map fun block => (fields block).address := by
  refine List.ext_getElem? fun k => ?_
  rw [List.getElem?_map, List.getElem?_map, numbered_blocks_getElem?, Option.map_map]
  cases hblock : blocks[k]? with
  | none => rw [Option.map_none, Option.map_none]
  | some block =>
    obtain ⟨hk, hget⟩ := List.getElem?_eq_some_iff.mp hblock
    have hmem : block ∈ blocks := hget ▸ List.getElem_mem hk
    have haddress : (fields (numbered total (index + k) block)).address = (fields block).address := by
      rw [fields_numbered (hlen block hmem) (hnumbers k hk).1 (hnumbers k hk).2]
    rw [Option.map_some, Option.map_some, Function.comp_apply, haddress]

theorem sector_blocks_addresses {total index : ℕ} {sector : List Byte}
    (hfits : ∀ offset ∈ offsets, offset + 256 ≤ sector.length)
    (hwords : ∀ k offset, offsets[k]? = some offset → ∀ w ∈ block_words (index + k) total offset, w < 2 ^ 32) :
    (sector_blocks total sector index offsets).map (fun block => (fields block).address)
      = offsets.map (SLOT + ·) := by
  refine List.ext_getElem? fun k => ?_
  rw [List.getElem?_map, List.getElem?_map, sector_blocks_getElem?, Option.map_map]
  cases hoffset : offsets[k]? with
  | none => rw [Option.map_none, Option.map_none]
  | some offset =>
    have hmem : offset ∈ offsets := List.mem_of_getElem? hoffset
    have haddress : (fields (laid_out total (index + k) offset sector)).address = SLOT + offset := by
      rw [fields_laid_out (hfits offset hmem) (hwords k offset hoffset)]
    rw [Option.map_some, Option.map_some, Function.comp_apply, haddress]

theorem flatten_length (h : ∀ block ∈ blocks, block.length = 512) :
    blocks.flatten.length = 512 * blocks.length := by
  induction blocks with
  | nil => rfl
  | cons block rest ih =>
    rw [List.flatten_cons, List.length_append, h block (by simp), ih fun b hb => h b (by simp [hb]),
      List.length_cons]
    omega

/-- A block of the composed file is one of the resident's or one of the sector's. -/
theorem composed_getElem? {total : ℕ} {sector : List Byte} {k : ℕ} {block : List Byte}
    (h : (numbered_blocks total 0 blocks ++ sector_blocks total sector blocks.length offsets)[k]? = some block) :
    (∃ b, blocks[k]? = some b ∧ block = numbered total k b) ∨
      (blocks.length ≤ k ∧ ∃ offset, offsets[k - blocks.length]? = some offset ∧
        block = laid_out total k offset sector) := by
  have hlen := numbered_blocks_length total 0 blocks
  by_cases hk : k < blocks.length
  · rw [List.getElem?_append_left (by omega), numbered_blocks_getElem?, Nat.zero_add] at h
    obtain ⟨b, hb, hblock⟩ := Option.map_eq_some_iff.mp h
    exact .inl ⟨b, hb, hblock.symm⟩
  · rw [List.getElem?_append_right (by omega), hlen, sector_blocks_getElem?] at h
    obtain ⟨offset, hoffset, hblock⟩ := Option.map_eq_some_iff.mp h
    rw [Nat.add_sub_cancel' (not_lt.mp hk)] at hblock
    exact .inr ⟨not_lt.mp hk, offset, hoffset, hblock.symm⟩

/-- **Numbering the resident's blocks and appending the sector composes.** -/
theorem with_sector_composes {resident capsule image : List Byte}
    (hresident : checked_resident_bytes resident = .ok blocks) (hcapsule : capsule.length ≤ SECTOR_BYTES)
    (h : with_sector blocks capsule = .ok image) : Composes resident capsule image := by
  obtain ⟨hblocks, hall, hnodup⟩ := checked_resident_bytes_eq_ok hresident
  have hlen : ∀ block ∈ blocks, block.length = 512 := fun block hb => blocks_of_length (hblocks ▸ hb)
  simp only [with_sector, bind_eq_ok, pure_eq_ok] at h
  obtain ⟨front, hfront, out, hout, rfl⟩ := h
  obtain ⟨rfl, hnumbers⟩ := renumber_eq_ok hfront
  have hfits := sector_offsets_fit hcapsule
  obtain ⟨rfl, hwords⟩ := append_sector_eq_ok hout hfits
  have hsixteen : SECTOR_BYTES / 256 = 16 := rfl
  rw [hsixteen] at hnumbers hwords ⊢
  rw [numbered_blocks_length] at hwords ⊢
  -- what each block of the file is, and that the file is cut into them
  have hresident_block : ∀ {k : ℕ} {b : List Byte}, blocks[k]? = some b → ResidentBlock b ∧
      fields (numbered (blocks.length + 16) k b)
        = { fields b with block_number := k, total := blocks.length + 16 } := by
    intro k b hb
    obtain ⟨hk, hget⟩ := List.getElem?_eq_some_iff.mp hb
    have hmem : b ∈ blocks := hget ▸ List.getElem_mem hk
    have hnumber := hnumbers k hk
    rw [Nat.zero_add] at hnumber
    exact ⟨hall b hmem, fields_numbered (hlen b hmem) hnumber.1 hnumber.2⟩
  have hsector_block : ∀ {k offset : ℕ}, blocks.length ≤ k → sector_offsets[k - blocks.length]? = some offset →
      fields (laid_out (blocks.length + 16) k offset (sector_of capsule))
        = ⟨MAGIC_START, 0x2000, SLOT + offset, 256, k, blocks.length + 16, FAMILY, MAGIC_END⟩ := by
    intro k offset hk hoffset
    have hword := hwords _ offset hoffset
    rw [Nat.add_sub_cancel' hk] at hword
    exact fields_laid_out (hfits offset (List.mem_of_getElem? hoffset)) hword
  have hwhole : ∀ block ∈ numbered_blocks (blocks.length + 16) 0 blocks
      ++ sector_blocks (blocks.length + 16) (sector_of capsule) blocks.length sector_offsets, block.length = 512 := by
    intro block hmem
    obtain ⟨k, hk⟩ := List.getElem?_of_mem hmem
    rcases composed_getElem? hk with ⟨b, hb, rfl⟩ | ⟨-, offset, hoffset, rfl⟩
    · exact numbered_length (hlen b (List.mem_of_getElem? hb))
    · exact laid_out_length (hfits offset (List.mem_of_getElem? hoffset))
  have hcut := blocks_of_flatten hwhole
  have hcount : (numbered_blocks (blocks.length + 16) 0 blocks
      ++ sector_blocks (blocks.length + 16) (sector_of capsule) blocks.length sector_offsets).length
      = blocks.length + 16 := by
    rw [List.length_append, numbered_blocks_length, sector_blocks_length]
    rfl
  refine ⟨?_, ?_, ?_, ?_, ?_, ?_⟩
  · rw [hcut, flatten_length hwhole]
  · rw [hcut, ← hblocks, hcount]
  · intro k block hk
    rw [hcut] at hk ⊢
    rw [hcount]
    rcases composed_getElem? hk with ⟨b, hb, rfl⟩ | ⟨hlow, offset, hoffset, rfl⟩
    · obtain ⟨hb', hfields⟩ := hresident_block hb
      rw [hfields]
      exact ⟨hb'.magic, hb'.magic_end, rfl, rfl⟩
    · rw [hsector_block hlow hoffset]
      exact ⟨rfl, rfl, rfl, rfl⟩
  · have hnumbers' : ∀ k < blocks.length, 0 + k < 2 ^ 32 ∧ blocks.length + 16 < 2 ^ 32 := hnumbers
    rw [hcut, List.map_append, numbered_blocks_addresses hlen hnumbers', sector_blocks_addresses hfits hwords]
    refine List.nodup_append.mpr ⟨hnodup, by decide, ?_⟩
    intro x hx y hy hsame
    obtain ⟨b, hb, rfl⟩ := List.mem_map.mp hx
    obtain ⟨offset, -, rfl⟩ := List.mem_map.mp hy
    have hhigh := (hall b hb).high
    rw [hsame, SLOT] at hhigh
    omega
  · intro k block block' hblock hblock' j hj
    rw [hcut] at hblock'
    rw [← hblocks] at hblock
    rcases composed_getElem? hblock' with ⟨b, hb, rfl⟩ | ⟨hlow, -⟩
    · rw [hblock] at hb
      obtain rfl := Option.some.inj hb
      exact numbered_getD (hlen block (List.mem_of_getElem? hblock)) hj
    · obtain ⟨hk, -⟩ := List.getElem?_eq_some_iff.mp hblock
      omega
  · intro a
    rw [flash, hcut, List.findSome?_append, written_numbered_blocks hlen hnumbers, written_sector_blocks hfits hwords,
      sector_offsets, List.findSome?_map]
    simp only [Function.comp_def]
    rw [findSome?_ranges SLOT a 16, show SLOT = 0x10200000 from rfl, show 256 * 16 = 4096 from rfl]
    by_cases hin : 0x10200000 ≤ a ∧ a < 0x10200000 + 4096
    · have hnone : blocks.findSome? (written a) = none :=
        List.findSome?_eq_none_iff.mpr fun b hb => written_resident (hall b hb) hin.1
      rw [hnone, Option.none_or, if_pos hin, if_pos hin]
    · rw [if_neg hin, if_neg hin, Option.or_none, flash, hblocks]

/-- **An initial image is the resident and one sector, and boots.** Whatever the resident's blocks,
their number and order: if `compose` returns an image, it consists of whole blocks numbered from
zero with the right total and magics, no two for one address; only number and total of the
resident's blocks are changed; it denotes the resident's map, and the capsule with erased bytes
after it at the slot, and nothing else; and the device's check accepts that sector for the
resident. With the FMS2 script the image is composed in the same way, whatever its validator
is. -/
theorem initial_images_compose (resident capsule : List Byte) (api : ℤ) :
    (∀ image, compose resident capsule api = .ok image → Composes resident capsule image ∧
      ∃ address : ℕ, api = address ∧
        (validate_image (some (sector_of capsule)) SECTOR_BYTES address).isOk = true) ∧
    ∀ state capacity validator image text,
      compose_stateful resident capsule api state capacity validator = .ok (image, text) →
        Composes resident capsule image := by
  refine ⟨?_, ?_⟩
  · intro image h
    simp only [compose, bind_eq_ok, raise_if_eq_ok, decide_eq_false_iff_not, not_not, not_lt, gt_iff_lt] at h
    obtain ⟨blocks, hresident, -, hsize, address, hchecked, -, hapi, himage⟩ := h
    refine ⟨with_sector_composes hresident hsize himage, address, hapi.symm, ?_⟩
    obtain ⟨-, -, -, info, hvalid, hlength⟩ := (checked_capsule_eq_ok capsule address).mp hchecked
    have hfront : (sector_of capsule).take capsule.length = capsule := by
      rw [sector_of, List.take_left]
    rw [show SECTOR_BYTES = kProofSectorBytes from rfl, validate_image_sector hfront hsize hvalid hlength]
    rfl
  · intro state capacity validator image text h
    simp only [compose_stateful, bind_eq_ok, pure_eq_ok, raise_if_eq_ok, Bool.not_eq_false', Bool.and_eq_true,
      decide_eq_true_eq, Prod.mk.injEq] at h
    obtain ⟨blocks, hresident, table, -, -, -, -, hsize, check, -, -, -, image', himage, rfl, -⟩ := h
    exact with_sector_composes hresident hsize.2 himage

/-- A resident of one block, with an API table for FMS2 at its start. -/
def sample_resident : List Byte :=
  let table := [0x49504146, 2 + 52 * 2 ^ 16, 0, 0, 0, 0, 0, 0, 0, 0, 0x20001000, 4096, 4096]
  [MAGIC_START.1, MAGIC_START.2, 0x2000, 0x10000000, 256, 0, 1, FAMILY].flatMap bytes32_le
    ++ table.flatMap bytes32_le ++ List.replicate 424 0 ++ bytes32_le MAGIC_END

/-- Both scripts compose it with a sample image. -/
theorem initial_images_compose_samples :
    (∃ image, Composes sample_resident sample_image image) ∧
      ∃ image, Composes sample_resident sample_stateful_image image := by
  refine ⟨?_, ?_⟩
  · obtain ⟨image, himage⟩ := exists_of_isOk
      (show (compose sample_resident sample_image 0x10000100).isOk = true by decide +kernel)
    exact ⟨image, ((initial_images_compose _ _ _).1 image himage).1⟩
  · obtain ⟨⟨image, text⟩, himage⟩ := exists_of_isOk
      (show (compose_stateful sample_resident sample_stateful_image 0x10000000 0x20001000 4096
        fun _ _ _ _ => .ok ⟨0, "", ""⟩).isOk = true by decide +kernel)
    exact ⟨image, (initial_images_compose _ _ _).2 _ _ _ image text himage⟩

end Firmingo.Managed.Composite
