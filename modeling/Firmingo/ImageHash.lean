/-
`sha256` of `experiments/managed_sketch/image.cpp` against the standard.

The standard hashes strings of bits and the source strings of bytes, so a byte string is
read as its bits (`bits_of`) and a word of the source as a bit vector. The source pads only
the end of the message, in one block or two, and runs its rounds over a table; the proof
goes up from the word to the block and to the message, and the two paddings are compared
for every length at once.
-/
import Firmingo.Image
import Firmingo.SecureHash

set_option autoImplicit false

open Octets SecureHash

namespace Firmingo.Managed

/-- The bits of a byte string. -/
def bits_of (l : List Byte) : Bits := l.flatMap fun b => bits 8 b.toNat

namespace Sha

/-! ## Bytes and bits -/

@[simp] theorem bits_of_nil : bits_of [] = [] := rfl

theorem bits_of_cons (b : Byte) (l : List Byte) : bits_of (b :: l) = bits 8 b.toNat ++ bits_of l := rfl

theorem bits_of_append (l m : List Byte) : bits_of (l ++ m) = bits_of l ++ bits_of m :=
  List.flatMap_append

@[simp] theorem bits_of_length (l : List Byte) : (bits_of l).length = 8 * l.length := by
  induction l with
  | nil => rfl
  | cons b l ih =>
    rw [bits_of_cons, List.length_append, bits_length, ih, List.length_cons]
    omega

theorem bits_of_drop (l : List Byte) (n : ℕ) : (bits_of l).drop (8 * n) = bits_of (l.drop n) := by
  induction n generalizing l with
  | zero => rfl
  | succ n ih =>
    cases l with
    | nil => rw [bits_of_nil, List.drop_nil, List.drop_nil, bits_of_nil]
    | cons b l =>
      rw [bits_of_cons, List.drop_succ_cons, ← ih, List.drop_append, bits_length,
        List.drop_eq_nil_of_le (by rw [bits_length]; omega), List.nil_append]
      congr 1

theorem bits_of_take (l : List Byte) (n : ℕ) : (bits_of l).take (8 * n) = bits_of (l.take n) := by
  induction n generalizing l with
  | zero => rfl
  | succ n ih =>
    cases l with
    | nil => rw [bits_of_nil, List.take_nil, List.take_nil, bits_of_nil]
    | cons b l =>
      rw [bits_of_cons, List.take_succ_cons, bits_of_cons, ← ih, List.take_append, bits_length,
        List.take_of_length_le (by rw [bits_length]; omega)]
      congr 2

theorem value_bits_of_cons (b : Byte) (l : List Byte) :
    value (bits_of (b :: l)) = b.toNat * 2 ^ (8 * l.length) + value (bits_of l) := by
  have hb := b.toNat_lt
  rw [bits_of_cons, value_append, value_bits, bits_of_length, Nat.mod_eq_of_lt (by omega)]

/-- Four bytes are a word of the standard. -/
theorem value_bits_of_word {l : List Byte} (h : 4 ≤ l.length) :
    value (bits_of (l.take 4)) = word32_be l := by
  rcases l with _ | ⟨b0, _ | ⟨b1, _ | ⟨b2, _ | ⟨b3, l⟩⟩⟩⟩
  iterate 4 (simp at h)
  rw [List.take_succ_cons, List.take_succ_cons, List.take_succ_cons, List.take_succ_cons,
    List.take_zero, value_bits_of_cons, value_bits_of_cons, value_bits_of_cons,
    value_bits_of_cons]
  simp only [bits_of_nil, List.length_cons, List.length_nil, word32_be, List.getD_cons_zero,
    List.getD_cons_succ]
  norm_num [value]
  ring

theorem bits_of_bytes32_be (v : ℕ) : bits_of (bytes32_be v) = bits 32 v := by
  refine eq_of_value_eq (by rw [bits_of_length, bits_length, bytes32_be_length]) ?_
  have hword := @value_bits_of_word (bytes32_be v) (le_of_eq (bytes32_be_length v).symm)
  rw [List.take_of_length_le (le_of_eq (bytes32_be_length v))] at hword
  rw [hword, value_bits]
  simp only [word32_be, bytes32_be, List.getD_cons_zero, List.getD_cons_succ, UInt8.toNat_ofNat']
  omega

variable {data : List Byte} {t : ℕ}

/-- The word of the source at byte `4 t` of a block. -/
theorem input_word (h : 64 ≤ data.length) (ht : t < 16) :
    words ((bits_of data).take 512) t
      = (UInt32.ofNat (word32_be (data.drop (4 * t)))).toBitVec := by
  have hbits : (((bits_of data).take 512).drop (32 * t)).take 32
      = bits_of ((data.drop (4 * t)).take 4) := by
    rw [List.drop_take, List.take_take, Nat.min_eq_left (by omega),
      show 32 * t = 8 * (4 * t) by omega, bits_of_drop, ← bits_of_take]
  rw [words, hbits, word_of_bits, value_bits_of_word (by rw [List.length_drop]; omega)]
  rfl

/-! ## Rounds -/

/-- The shifts of the source are a rotation. -/
theorem rotate_toBitVec (x n : UInt32) (h0 : 0 < n.toNat) (h : n.toNat < 32) :
    (rotate x n).toBitVec = x.toBitVec.rotateRight n.toNat := by
  have hleft : (32 - n).toNat = 32 - n.toNat := by
    rw [UInt32.toNat_sub_of_le _ _ (by rw [UInt32.le_iff_toNat_le]; exact h.le)]
    rfl
  have hn : n.toBitVec % 32 = n.toBitVec := by
    apply BitVec.eq_of_toNat_eq
    rw [BitVec.toNat_umod]
    exact Nat.mod_eq_of_lt h
  have hn' : (32 - n).toBitVec % 32 = (32 - n).toBitVec := by
    apply BitVec.eq_of_toNat_eq
    rw [BitVec.toNat_umod]
    refine Nat.mod_eq_of_lt ?_
    change (32 - n).toNat < 32
    omega
  rw [BitVec.rotateRight_def, Nat.mod_eq_of_lt h, rotate, UInt32.toBitVec_or,
    UInt32.toBitVec_shiftRight, UInt32.toBitVec_shiftLeft, hn, hn', BitVec.ushiftRight_eq',
    BitVec.shiftLeft_eq', ← hleft]
  rfl

/-- A hash value of the source, as the standard has it. -/
def chain (v : Sha) : Chain :=
  ⟨v.a.toBitVec, v.b.toBitVec, v.c.toBitVec, v.d.toBitVec, v.e.toBitVec, v.f.toBitVec, v.g.toBitVec,
    v.h.toBitVec⟩

/-- One round, with the constant and the word of round `t`. -/
theorem chain_round (v : Sha) {w : ℕ → Word} {kw : UInt32 × UInt32} (hk : kw.1.toBitVec = SecureHash.k t)
    (hw : kw.2.toBitVec = w t) : chain (round v kw) = SecureHash.round w (chain v) t := by
  simp only [chain, round, SecureHash.round, big_sigma0, big_sigma1, ch, maj, ← hk, ← hw,
    UInt32.toBitVec_add, UInt32.toBitVec_xor, UInt32.toBitVec_and, UInt32.toBitVec_not]
  rw [rotate_toBitVec v.e 6 (by decide) (by decide), rotate_toBitVec v.e 11 (by decide) (by decide),
    rotate_toBitVec v.e 25 (by decide) (by decide), rotate_toBitVec v.a 2 (by decide) (by decide),
    rotate_toBitVec v.a 13 (by decide) (by decide), rotate_toBitVec v.a 22 (by decide) (by decide)]
  rfl

/-- The words of the schedule so far are those of the standard. -/
def Scheduled (m : ℕ → Word) (words : List UInt32) : Prop :=
  ∀ t < words.length, (words.getD t 0).toBitVec = SecureHash.schedule m t

theorem input_words_scheduled (h : 64 ≤ data.length) :
    Scheduled (words ((bits_of data).take 512)) (input_words data) := by
  intro t ht
  have ht' : t < 16 := by simpa [input_words] using ht
  rw [SecureHash.schedule, if_pos ht', input_word h ht', List.getD_eq_getElem _ _ ht]
  simp [input_words]

theorem extend_length (words : List UInt32) (i : ℕ) : (extend words i).length = words.length + 1 := by
  rw [extend, List.length_append, List.length_singleton]

theorem schedule_sum (x s0 y s1 : Word) : x + s0 + y + s1 = s1 + y + s0 + x := by
  rw [BitVec.add_comm _ s1, BitVec.add_comm _ y, BitVec.add_comm x s0, ← BitVec.add_assoc,
    ← BitVec.add_assoc]

/-- A step of the loop that fills the schedule. -/
theorem extend_scheduled {m : ℕ → Word} {words : List UInt32} {i : ℕ} (h : Scheduled m words)
    (hi : 16 ≤ i) (hlen : words.length = i) : Scheduled m (extend words i) := by
  intro t ht
  rw [extend_length, hlen] at ht
  by_cases hlast : t = i
  · subst hlast
    have h15 := h (t - 15) (by omega)
    have h2 := h (t - 2) (by omega)
    have h16 := h (t - 16) (by omega)
    have h7 := h (t - 7) (by omega)
    rw [extend, List.getD_append_right _ _ _ _ (le_of_eq hlen), hlen, Nat.sub_self,
      List.getD_cons_zero, SecureHash.schedule, if_neg (by omega), ← h15, ← h2, ← h16, ← h7]
    simp only [UInt32.toBitVec_add, UInt32.toBitVec_xor, small_sigma0, small_sigma1]
    rw [rotate_toBitVec _ 7 (by decide) (by decide), rotate_toBitVec _ 18 (by decide) (by decide),
      rotate_toBitVec _ 17 (by decide) (by decide), rotate_toBitVec _ 19 (by decide) (by decide)]
    -- the source adds the four words in another order
    exact schedule_sum _ _ _ _
  · rw [extend, List.getD_append _ _ _ _ (by omega)]
    exact h t (by omega)

/-- The loop that extends the words follows the schedule. -/
theorem extend_run {m : ℕ → Word} {words : List UInt32} {i : ℕ} (h : Scheduled m words) (hi : 16 ≤ i)
    (hlen : words.length = i) (n : ℕ) :
    Scheduled m (((List.range n).map (i + ·)).foldl extend words)
      ∧ (((List.range n).map (i + ·)).foldl extend words).length = i + n := by
  induction n with
  | zero => exact ⟨h, hlen⟩
  | succ n ih =>
    rw [List.range_succ, List.map_append, List.foldl_append, List.map_singleton, List.foldl_cons,
      List.foldl_nil, extend_length, ih.2]
    exact ⟨extend_scheduled ih.1 (Nat.le_add_right_of_le hi) ih.2, rfl⟩

/-! ## Constants -/

/-- The first sixty-four primes. -/
def primes : List ℕ :=
  [2, 3, 5, 7, 11, 13, 17, 19, 23, 29, 31, 37, 41, 43, 47, 53, 59, 61, 67, 71, 73, 79, 83, 89, 97, 101,
    103, 107, 109, 113, 127, 131, 137, 139, 149, 151, 157, 163, 167, 173, 179, 181, 191, 193, 197,
    199, 211, 223, 227, 229, 233, 239, 241, 251, 257, 263, 269, 271, 277, 281, 283, 293, 307, 311]

theorem nth_primes (ht : t < 64) : Nat.nth Nat.Prime t = primes.getD t 0 := by
  have htable : ∀ t < 64, (2 ≤ primes.getD t 0 ∧ ∀ m < primes.getD t 0, m ∣ primes.getD t 0 → m = 1)
      ∧ Nat.count (fun n => 2 ≤ n ∧ ∀ m < n, m ∣ n → m = 1) (primes.getD t 0) = t := by
    decide +kernel
  exact nth_prime_eq (htable t ht).1 (htable t ht).2

/-- The root of a number below `343`, with a table's constant after the point. -/
def root (degree p : ℕ) (constant : UInt32) : ℕ :=
  ((List.range 7).countP fun m => (m + 1) ^ degree ≤ p) * 2 ^ 32 + constant.toNat

theorem root_bits_root {degree p : ℕ} {constant : UInt32} (hdegree : degree ≠ 0)
    (h : root degree p constant ^ degree ≤ p * 2 ^ (32 * degree)
      ∧ p * 2 ^ (32 * degree) < (root degree p constant + 1) ^ degree) :
    constant.toBitVec = root_bits degree p := by
  rw [root_bits_eq hdegree h.1 h.2, root]
  apply BitVec.eq_of_toNat_eq
  rw [BitVec.toNat_ofNat, Nat.mul_add_mod_self_right, Nat.mod_eq_of_lt constant.toNat_lt]
  rfl

theorem k_eq (ht : t < 64) : (k.getD t 0).toBitVec = SecureHash.k t := by
  have htable : ∀ t < 64, root 3 (primes.getD t 0) (k.getD t 0) ^ 3 ≤ primes.getD t 0 * 2 ^ (32 * 3)
      ∧ primes.getD t 0 * 2 ^ (32 * 3) < (root 3 (primes.getD t 0) (k.getD t 0) + 1) ^ 3 := by
    decide +kernel
  rw [SecureHash.k, nth_primes ht, root_bits_root (by omega) (htable t ht)]

/-- The eight initial words are those of the standard. -/
theorem chain_initial : chain initial = SecureHash.initial := by
  have hword : ∀ (t : ℕ) (constant : UInt32), t < 64 →
      root 2 (primes.getD t 0) constant ^ 2 ≤ primes.getD t 0 * 2 ^ (32 * 2)
        ∧ primes.getD t 0 * 2 ^ (32 * 2) < (root 2 (primes.getD t 0) constant + 1) ^ 2 →
      constant.toBitVec = h0 t := by
    intro t constant ht h
    rw [h0, nth_primes ht, root_bits_root (by omega) h]
  rw [SecureHash.initial, ← hword 0 initial.a (by omega) (by decide +kernel),
    ← hword 1 initial.b (by omega) (by decide +kernel),
    ← hword 2 initial.c (by omega) (by decide +kernel),
    ← hword 3 initial.d (by omega) (by decide +kernel),
    ← hword 4 initial.e (by omega) (by decide +kernel),
    ← hword 5 initial.f (by omega) (by decide +kernel),
    ← hword 6 initial.g (by omega) (by decide +kernel),
    ← hword 7 initial.h (by omega) (by decide +kernel)]
  rfl

/-! ## Blocks -/

/-- The rounds over the two tables are the rounds of the standard. -/
theorem rounds_eq {m : ℕ → Word} {words : List UInt32} (h : Scheduled m words)
    (hlen : words.length = 64) (v : Sha) (n : ℕ) (hn : n ≤ 64) :
    chain (((k.zip words).take n).foldl round v)
      = (List.range n).foldl (SecureHash.round (SecureHash.schedule m)) (chain v) := by
  induction n with
  | zero => rfl
  | succ n ih =>
    have hzip : n < (k.zip words).length := by
      rw [List.length_zip, hlen]
      exact hn
    have hk : n < k.length := hn
    rw [List.take_succ_eq_append_getElem hzip, List.foldl_append, List.range_succ,
      List.foldl_append, ← ih (by omega), List.foldl_cons, List.foldl_nil, List.foldl_cons,
      List.foldl_nil, List.getElem_zip]
    refine chain_round _ ?_ ?_
    · rw [← k_eq (by omega : n < 64), List.getD_eq_getElem _ _ hk]
    · rw [← h n (by omega), List.getD_eq_getElem _ _ (by omega)]

/-- **A block of the source is a block of the standard.** -/
theorem chain_block (v : Sha) (h : 64 ≤ data.length) :
    chain (block v data) = compress (chain v) ((bits_of data).take 512) := by
  obtain ⟨hsched, hlen⟩ := extend_run (input_words_scheduled h) (le_refl 16)
    (by simp [input_words]) 48
  have hrounds := rounds_eq hsched hlen v 64 (le_refl 64)
  have hall : (k.zip (schedule data)).take 64 = k.zip (schedule data) := by
    refine List.take_of_length_le ?_
    rw [List.length_zip]
    exact Nat.min_le_left _ _
  rw [compress, ← hrounds]
  change _ = (chain (((k.zip (schedule data)).take 64).foldl round v)).add (chain v)
  rw [hall]
  simp only [chain, block, Chain.add, UInt32.toBitVec_add, BitVec.add_comm]

theorem chain_blocks (v : Sha) (data : List Byte) (n : ℕ) (h : 64 * n ≤ data.length) :
    chain (blocks v data n) = absorb (chain v) (bits_of data) n := by
  induction n generalizing v data with
  | zero => rfl
  | succ n ih =>
    rw [blocks, absorb, ih _ _ (by rw [List.length_drop]; omega), chain_block v (by omega),
      ← bits_of_drop]

/-! ## Messages -/

theorem bits_of_replicate_zero (n : ℕ) : bits_of (List.replicate n 0) = List.replicate (8 * n) false := by
  induction n with
  | zero => rfl
  | succ n ih =>
    rw [List.replicate_succ, bits_of_cons, ih, show 8 * (n + 1) = 8 + 8 * n by omega,
      List.replicate_add]
    rfl

theorem bits_64 {v : ℕ} (hv : v < 2 ^ 64) : bits 32 (v / 2 ^ 32) ++ bits 32 v = bits 64 v := by
  refine eq_of_value_eq (by rw [List.length_append, bits_length, bits_length, bits_length]) ?_
  rw [value_append, value_bits, value_bits, value_bits, bits_length]
  omega

/-- **The padding of the source is that of the standard**, in one block or in two. -/
theorem bits_of_tail (hsize : data.length < 2 ^ 61) :
    bits_of (data.take (64 * (data.length / 64)) ++ tail (data.drop (64 * (data.length / 64))) data.length)
      = pad (bits_of data) := by
  have hrest : (data.drop (64 * (data.length / 64))).length = data.length % 64 := by
    rw [List.length_drop]
    omega
  have hcount : data.length * 8 % 2 ^ 64 = 8 * data.length := by
    rw [Nat.mod_eq_of_lt (by omega), Nat.mul_comm]
  have hzeros : 7 + 8 * ((if data.length % 64 ≥ 56 then 128 else 64) - 9 - data.length % 64)
      = zeros (8 * data.length) := by
    unfold zeros
    split_ifs with h
    · omega
    · omega
  have hone : bits_of [0x80] = true :: List.replicate 7 false := by
    decide
  unfold tail pad
  rw [hrest, hcount, ← List.append_assoc, ← List.append_assoc, ← List.append_assoc,
    ← List.append_assoc, List.take_append_drop, bits_of_append, bits_of_append, bits_of_append,
    bits_of_append, hone, bits_of_replicate_zero, bits_of_bytes32_be, bits_of_bytes32_be,
    bits_of_length, ← hzeros, List.replicate_add, List.append_assoc _ (bits 32 _),
    bits_64 (by omega)]
  simp only [List.append_assoc, List.cons_append]

theorem bits_of_digest (v : Sha) : bits_of (digest v) = (chain v).digest := by
  simp only [digest, Chain.digest, List.flatMap_cons, List.flatMap_nil, bits_of_append,
    bits_of_bytes32_be, bits_of_nil]
  rfl

end Sha

/-- **The digest is SHA-256**, for every message of fewer than `2 ^ 61` bytes. -/
theorem sha256_meets_standard (data : List Byte) (hsize : data.length < 2 ^ 61) :
    bits_of (sha256 data) = SecureHash.sha256 (bits_of data) := by
  set whole := data.length / 64 with hwhole
  set rest := Sha.tail (data.drop (64 * whole)) data.length with hrest
  have hpad : bits_of (data.take (64 * whole) ++ rest) = pad (bits_of data) :=
    Sha.bits_of_tail hsize
  have hfront : (data.take (64 * whole)).length = 64 * whole := by
    rw [List.length_take]
    omega
  have hlength : (pad (bits_of data)).length / 512 = whole + rest.length / 64 := by
    rw [← hpad, Sha.bits_of_length, List.length_append, hfront]
    omega
  have hfirst : absorb SecureHash.initial (pad (bits_of data)) whole
      = Sha.chain (Sha.blocks Sha.initial data whole) := by
    rw [Sha.chain_blocks _ _ _ (by omega), Sha.chain_initial, ← absorb_take,
      ← absorb_take _ (bits_of data), pad, List.take_append_of_le_length]
    rw [Sha.bits_of_length]
    omega
  have hlast : (pad (bits_of data)).drop (512 * whole) = bits_of rest := by
    rw [← hpad, show 512 * whole = 8 * (64 * whole) by omega, Sha.bits_of_drop]
    congr 1
    exact List.drop_left' hfront
  rw [SecureHash.sha256, hlength, absorb_add, hfirst, hlast, ← Sha.chain_blocks _ _ _ (by omega),
    ← Sha.bits_of_digest]
  rfl

/-- A message that ends a byte before its block is full, so that the padding takes two. -/
theorem sha256_meets_standard_two_blocks :
    (List.replicate 63 (0x61 : Byte)).length < 2 ^ 61
      ∧ bits_of (sha256 (List.replicate 63 0x61)) = SecureHash.sha256 (bits_of (List.replicate 63 0x61)) :=
  ⟨by decide, sha256_meets_standard (List.replicate 63 0x61) (by decide)⟩

end Firmingo.Managed
