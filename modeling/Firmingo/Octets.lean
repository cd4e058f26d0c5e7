/-
Byte strings: the small vocabulary every layer above is written in.

A C string literal is `ascii`, a printed unsigned number is `decimal`, and the
fixed-width words of a wire format are read and written by `word32_be`, `bytes32_be`
and their like. Everything is stated over lists of bytes and natural numbers, so
that a length is a `List.length` and a word is a number `omega` can see; the
bit shifts and masks of a C implementation are the same arithmetic, since the
bytes of a word never overlap.
-/
import Mathlib

set_option autoImplicit false

namespace Octets

abbrev Byte := UInt8

/-! ## Text -/

/-- The bytes of an ASCII literal. Irreducible, so that no unification unfolds a text. -/
@[irreducible] def ascii (s : String) : List Byte := s.toList.map fun c => UInt8.ofNat c.toNat

/-- The bytes of a literal from its letters. Evaluating a text after this rewriting does not
decode the string. -/
theorem ascii_ofList (l : List Char) :
    ascii (String.ofList l) = l.map fun c => UInt8.ofNat c.toNat := by
  rw [ascii, String.toList_ofList]

/-- An unsigned number in decimal, as `%u`, `%lu` and `%llu` print it. -/
def decimal (n : ℕ) : List Byte := (Nat.toDigits 10 n).map fun c => UInt8.ofNat c.toNat

theorem decimal_length (n : ℕ) : (decimal n).length = (Nat.toDigits 10 n).length := by
  rw [decimal, List.length_map]

/-- A number below `10 ^ k` prints in at most `k` characters, for every `k > 0`. -/
theorem decimal_length_le {n k : ℕ} (hk : 0 < k) (hn : n < 10 ^ k) : (decimal n).length ≤ k := by
  rw [decimal_length]
  exact (Nat.length_toDigits_le_iff (by norm_num) hk).mpr hn

/-! ## Bytes of a part -/

theorem getD_drop (b : List Byte) (i k : ℕ) : (b.drop i).getD k 0 = b.getD (i + k) 0 := by
  simp [List.getD_eq_getElem?_getD]

theorem getD_take_of_lt (b : List Byte) {n k : ℕ} (hk : k < n) : (b.take n).getD k 0 = b.getD k 0 := by
  simp [List.getD_eq_getElem?_getD, hk]

/-! ## Words

Big-endian first, because that is what a network header uses; the little-endian
readers serve image formats. All of them are total: a byte past the end reads as
zero, and the callers' length checks are what keep that from happening. -/

/-- The big-endian 16-bit word at the front of `b`. -/
def word16_be (b : List Byte) : ℕ := (b.getD 0 0).toNat * 2 ^ 8 + (b.getD 1 0).toNat

/-- The big-endian 32-bit word at the front of `b`. -/
def word32_be (b : List Byte) : ℕ :=
  (b.getD 0 0).toNat * 2 ^ 24 + (b.getD 1 0).toNat * 2 ^ 16 + (b.getD 2 0).toNat * 2 ^ 8
    + (b.getD 3 0).toNat

/-- The little-endian 16-bit word at the front of `b`. -/
def word16_le (b : List Byte) : ℕ := (b.getD 0 0).toNat + (b.getD 1 0).toNat * 2 ^ 8

/-- The little-endian 32-bit word at the front of `b`. -/
def word32_le (b : List Byte) : ℕ :=
  (b.getD 0 0).toNat + (b.getD 1 0).toNat * 2 ^ 8 + (b.getD 2 0).toNat * 2 ^ 16
    + (b.getD 3 0).toNat * 2 ^ 24

/-- The two bytes of `v`, high byte first. -/
def bytes16_be (v : ℕ) : List Byte := [UInt8.ofNat (v / 2 ^ 8), UInt8.ofNat v]

/-- The four bytes of `v`, high byte first. -/
def bytes32_be (v : ℕ) : List Byte :=
  [UInt8.ofNat (v / 2 ^ 24), UInt8.ofNat (v / 2 ^ 16), UInt8.ofNat (v / 2 ^ 8), UInt8.ofNat v]

@[simp] theorem bytes16_be_length (v : ℕ) : (bytes16_be v).length = 2 := rfl

@[simp] theorem bytes32_be_length (v : ℕ) : (bytes32_be v).length = 4 := rfl

theorem word32_be_lt (b : List Byte) : word32_be b < 2 ^ 32 := by
  have h0 := (b.getD 0 0).toNat_lt
  have h1 := (b.getD 1 0).toNat_lt
  have h2 := (b.getD 2 0).toNat_lt
  have h3 := (b.getD 3 0).toNat_lt
  unfold word32_be
  omega

/-- Writing a 32-bit value and reading it back is the identity, whatever follows. -/
theorem word32_be_bytes32_be {v : ℕ} (hv : v < 2 ^ 32) (rest : List Byte) :
    word32_be (bytes32_be v ++ rest) = v := by
  simp only [word32_be, bytes32_be, List.cons_append, List.nil_append, List.getD_cons_zero,
    List.getD_cons_succ, UInt8.toNat_ofNat']
  omega

/-- Reading four bytes and writing them back is the identity, too. -/
theorem bytes32_be_word32_be {b : List Byte} (h : 4 ≤ b.length) :
    bytes32_be (word32_be b) = b.take 4 := by
  rcases b with _ | ⟨b0, _ | ⟨b1, _ | ⟨b2, _ | ⟨b3, rest⟩⟩⟩⟩
  iterate 4 (simp at h)
  have h0 := b0.toNat_lt
  have h1 := b1.toNat_lt
  have h2 := b2.toNat_lt
  have h3 := b3.toNat_lt
  simp only [bytes32_be, word32_be, List.getD_cons_zero, List.getD_cons_succ, List.take_succ_cons,
    List.take_zero, List.cons.injEq, and_true]
  refine ⟨?_, ?_, ?_, ?_⟩ <;> (apply UInt8.toNat.inj; rw [UInt8.toNat_ofNat']; omega)

/-- The two bytes of `v`, low byte first. -/
def bytes16_le (v : ℕ) : List Byte := [UInt8.ofNat v, UInt8.ofNat (v / 2 ^ 8)]

/-- The four bytes of `v`, low byte first. -/
def bytes32_le (v : ℕ) : List Byte :=
  [UInt8.ofNat v, UInt8.ofNat (v / 2 ^ 8), UInt8.ofNat (v / 2 ^ 16), UInt8.ofNat (v / 2 ^ 24)]

@[simp] theorem bytes16_le_length (v : ℕ) : (bytes16_le v).length = 2 := rfl

@[simp] theorem bytes32_le_length (v : ℕ) : (bytes32_le v).length = 4 := rfl

theorem word16_le_bytes16_le {v : ℕ} (hv : v < 2 ^ 16) (rest : List Byte) :
    word16_le (bytes16_le v ++ rest) = v := by
  simp only [word16_le, bytes16_le, List.cons_append, List.nil_append, List.getD_cons_zero,
    List.getD_cons_succ, UInt8.toNat_ofNat']
  omega

theorem word32_le_bytes32_le {v : ℕ} (hv : v < 2 ^ 32) (rest : List Byte) :
    word32_le (bytes32_le v ++ rest) = v := by
  simp only [word32_le, bytes32_le, List.cons_append, List.nil_append, List.getD_cons_zero,
    List.getD_cons_succ, UInt8.toNat_ofNat']
  omega

theorem bytes32_le_word32_le {b : List Byte} (h : 4 ≤ b.length) : bytes32_le (word32_le b) = b.take 4 := by
  rcases b with _ | ⟨b0, _ | ⟨b1, _ | ⟨b2, _ | ⟨b3, rest⟩⟩⟩⟩
  iterate 4 (simp at h)
  have h0 := b0.toNat_lt
  have h1 := b1.toNat_lt
  have h2 := b2.toNat_lt
  have h3 := b3.toNat_lt
  simp only [bytes32_le, word32_le, List.getD_cons_zero, List.getD_cons_succ, List.take_succ_cons,
    List.take_zero, List.cons.injEq, and_true]
  refine ⟨?_, ?_, ?_, ?_⟩ <;> (apply UInt8.toNat.inj; rw [UInt8.toNat_ofNat']; omega)

/-- A word of a table of little-endian words. -/
theorem word32_le_table {words : List ℕ} (hwords : ∀ w ∈ words, w < 2 ^ 32) (rest : List Byte) {i : ℕ}
    (hi : i < words.length) :
    word32_le ((words.flatMap bytes32_le ++ rest).drop (4 * i)) = words[i] := by
  induction words generalizing i with
  | nil => simp at hi
  | cons w words ih =>
    rw [List.flatMap_cons, List.append_assoc]
    cases i with
    | zero => exact word32_le_bytes32_le (hwords w (by simp)) _
    | succ i =>
      have hskip : 4 * (i + 1) = (bytes32_le w).length + 4 * i := by
        rw [bytes32_le_length]
        omega
      rw [hskip, ← List.drop_drop, List.drop_left]
      exact ih (fun v hv => hwords v (by simp [hv])) (by simpa using hi)

end Octets
