/-
SHA-256 as the secure hash standard defines it, over strings of bits.

A message is a list of bits, the first one the most significant. It is padded to whole
blocks of 512 bits, each block is sixteen words of a schedule that goes on to sixty-four,
and each word of the schedule drives one round of the compression. The constants are
defined as the standard explains them, from the roots of the first primes; `root_bits_eq`
turns a table of them into inequalities between natural numbers.
-/
import Mathlib

set_option autoImplicit false

namespace SecureHash

/-! ## Bits and words -/

abbrev Bits := List Bool

abbrev Word := BitVec 32

/-- The number a string of bits stands for. -/
def value (l : Bits) : ℕ := l.foldl (fun n b => 2 * n + b.toNat) 0

/-- A number in `n` bits. -/
def bits (n x : ℕ) : Bits := (List.range n).map fun i => x.testBit (n - 1 - i)

@[simp] theorem bits_length (n x : ℕ) : (bits n x).length = n := by
  rw [bits, List.length_map, List.length_range]

theorem foldl_value (l : Bits) (n : ℕ) :
    l.foldl (fun n b => 2 * n + b.toNat) n = n * 2 ^ l.length + value l := by
  induction l generalizing n with
  | nil => simp [value]
  | cons b l ih =>
    rw [value, List.foldl_cons, List.foldl_cons, ih, ih (2 * 0 + b.toNat), List.length_cons]
    ring

theorem value_append (l m : Bits) : value (l ++ m) = value l * 2 ^ m.length + value m := by
  rw [value, List.foldl_append, foldl_value]
  rfl

theorem value_singleton (b : Bool) : value [b] = b.toNat := by
  simp [value]

theorem value_lt (l : Bits) : value l < 2 ^ l.length := by
  induction l with
  | nil => exact Nat.one_pos
  | cons b l ih =>
    have hb : b.toNat ≤ 1 := Bool.toNat_le b
    have hvalue := value_append [b] l
    rw [List.singleton_append, value_singleton] at hvalue
    rw [hvalue, List.length_cons, pow_succ]
    nlinarith

/-- Two strings of one length with one value are the same. -/
theorem eq_of_value_eq {l m : Bits} (hlen : l.length = m.length) (h : value l = value m) :
    l = m := by
  induction l generalizing m with
  | nil => exact (List.length_eq_zero_iff.mp hlen.symm).symm
  | cons b l ih =>
    cases m with
    | nil => cases hlen
    | cons c m =>
      have hlen' : l.length = m.length := Nat.succ.inj hlen
      have hl := value_append [b] l
      have hm := value_append [c] m
      rw [List.singleton_append, value_singleton] at hl hm
      have hlt := value_lt l
      have hlt' := value_lt m
      rw [hl, hm, hlen'] at h
      rw [hlen'] at hlt
      have hbc : b = c := by
        cases b <;> cases c
        · rfl
        · simp at h
          omega
        · simp at h
          omega
        · rfl
      subst hbc
      rw [ih hlen' (Nat.add_left_cancel h)]

theorem bits_succ (n x : ℕ) : bits (n + 1) x = bits n (x / 2) ++ [x.testBit 0] := by
  rw [bits, List.range_succ, List.map_append, List.map_singleton, bits]
  congr 1
  · refine List.map_congr_left fun i hi => ?_
    rw [List.mem_range] at hi
    rw [Nat.testBit_div_two, show n - 1 - i + 1 = n + 1 - 1 - i by omega]
  · rw [show n + 1 - 1 - n = 0 by omega]

theorem value_bits (n x : ℕ) : value (bits n x) = x % 2 ^ n := by
  induction n generalizing x with
  | zero =>
    rw [pow_zero, Nat.mod_one]
    rfl
  | succ n ih =>
    rw [bits_succ, value_append, value_singleton, ih, List.length_singleton, pow_one,
      Nat.testBit_zero, pow_succ, Nat.mul_comm (2 ^ n) 2, Nat.mod_mul]
    rcases Nat.mod_two_eq_zero_or_one x with h | h
    · simp [h]
      omega
    · simp [h]
      omega

def word_of_bits (l : Bits) : Word := BitVec.ofNat 32 (value l)

/-! ## Functions and constants -/

def ch (x y z : Word) : Word := (x &&& y) ^^^ (~~~x &&& z)

def maj (x y z : Word) : Word := (x &&& y) ^^^ (x &&& z) ^^^ (y &&& z)

def big_sigma0 (x : Word) : Word := x.rotateRight 2 ^^^ x.rotateRight 13 ^^^ x.rotateRight 22

def big_sigma1 (x : Word) : Word := x.rotateRight 6 ^^^ x.rotateRight 11 ^^^ x.rotateRight 25

def small_sigma0 (x : Word) : Word := x.rotateRight 7 ^^^ x.rotateRight 18 ^^^ (x >>> 3)

def small_sigma1 (x : Word) : Word := x.rotateRight 17 ^^^ x.rotateRight 19 ^^^ (x >>> 10)

/-- The first 32 bits of the fractional part of a root: the integer part of the root times
`2 ^ 32`, and of that the last 32 bits. -/
def root_bits (degree p : ℕ) : Word := BitVec.ofNat 32 (Nat.nthRoot degree (p * 2 ^ (32 * degree)))

/-- The round constants: the cube roots of the first sixty-four primes. -/
noncomputable def k (t : ℕ) : Word := root_bits 3 (Nat.nth Nat.Prime t)

/-- The initial hash value: the square roots of the first eight primes. -/
noncomputable def h0 (j : ℕ) : Word := root_bits 2 (Nat.nth Nat.Prime j)

/-- A root lies between two neighbouring integers. -/
theorem root_bits_eq {degree p n : ℕ} (hdegree : degree ≠ 0) (hle : n ^ degree ≤ p * 2 ^ (32 * degree))
    (hlt : p * 2 ^ (32 * degree) < (n + 1) ^ degree) : root_bits degree p = BitVec.ofNat 32 n := by
  have hroot_le : Nat.nthRoot degree (p * 2 ^ (32 * degree)) ^ degree ≤ p * 2 ^ (32 * degree) :=
    Nat.pow_nthRoot_le (Or.inl hdegree)
  have hroot_lt := Nat.lt_pow_nthRoot_add_one hdegree (p * 2 ^ (32 * degree))
  have hnot_lt : ¬ Nat.nthRoot degree (p * 2 ^ (32 * degree)) < n := by
    intro h
    have hpow := Nat.pow_le_pow_left (Nat.succ_le_of_lt h) degree
    exact absurd (lt_of_lt_of_le hroot_lt hpow) (not_lt.mpr hle)
  have hnot_gt : ¬ n < Nat.nthRoot degree (p * 2 ^ (32 * degree)) := by
    intro h
    have hpow := Nat.pow_le_pow_left (Nat.succ_le_of_lt h) degree
    exact absurd (lt_of_lt_of_le hlt hpow) (not_lt.mpr hroot_le)
  rw [root_bits, le_antisymm (not_lt.mp hnot_gt) (not_lt.mp hnot_lt)]

/-- The primes in order, by counting. -/
theorem nth_prime_eq {t p : ℕ} (hp : 2 ≤ p ∧ ∀ m < p, m ∣ p → m = 1)
    (hcount : Nat.count (fun n => 2 ≤ n ∧ ∀ m < n, m ∣ n → m = 1) p = t) :
    Nat.nth Nat.Prime t = p := by
  have hpred : Nat.Prime = fun n => 2 ≤ n ∧ ∀ m < n, m ∣ n → m = 1 :=
    funext fun n => propext Nat.prime_def_lt
  rw [hpred, ← hcount]
  exact Nat.nth_count hp

/-! ## The compression -/

/-- The message schedule of a block. -/
def schedule (m : ℕ → Word) (t : ℕ) : Word :=
  if t < 16 then m t
  else small_sigma1 (schedule m (t - 2)) + schedule m (t - 7) + small_sigma0 (schedule m (t - 15))
    + schedule m (t - 16)

/-- The working variables, also a hash value. -/
structure Chain where
  a : Word
  b : Word
  c : Word
  d : Word
  e : Word
  f : Word
  g : Word
  h : Word

noncomputable def initial : Chain := ⟨h0 0, h0 1, h0 2, h0 3, h0 4, h0 5, h0 6, h0 7⟩

/-- Round `t`, with the words of the schedule. -/
noncomputable def round (w : ℕ → Word) (v : Chain) (t : ℕ) : Chain :=
  let t1 := v.h + big_sigma1 v.e + ch v.e v.f v.g + k t + w t
  let t2 := big_sigma0 v.a + maj v.a v.b v.c
  ⟨t1 + t2, v.a, v.b, v.c, v.d + t1, v.e, v.f, v.g⟩

def Chain.add (v w : Chain) : Chain :=
  ⟨v.a + w.a, v.b + w.b, v.c + w.c, v.d + w.d, v.e + w.e, v.f + w.f, v.g + w.g, v.h + w.h⟩

/-- The words of a block of 512 bits. -/
def words (block : Bits) (t : ℕ) : Word := word_of_bits ((block.drop (32 * t)).take 32)

/-- The hash value after a block. -/
noncomputable def compress (v : Chain) (block : Bits) : Chain :=
  ((List.range 64).foldl (round (schedule (words block))) v).add v

/-! ## Messages -/

/-- The zeros between the one and the length: as few as make whole blocks. -/
def zeros (l : ℕ) : ℕ := (448 + 512 - (l + 1) % 512) % 512

/-- The padded message: a one, zeros, and the length in 64 bits. -/
def pad (message : Bits) : Bits :=
  message ++ (true :: (List.replicate (zeros message.length) false ++ bits 64 message.length))

/-- Hashing the first `n` blocks of a padded message. -/
noncomputable def absorb (v : Chain) (padded : Bits) : ℕ → Chain
  | 0 => v
  | n + 1 => absorb (compress v (padded.take 512)) (padded.drop 512) n

/-- Only the first `n` blocks count. -/
theorem absorb_take (v : Chain) (padded : Bits) (n : ℕ) :
    absorb v (padded.take (512 * n)) n = absorb v padded n := by
  induction n generalizing v padded with
  | zero => rfl
  | succ n ih =>
    rw [absorb, absorb, List.take_take, Nat.min_eq_left (by omega), List.drop_take,
      show 512 * (n + 1) - 512 = 512 * n by omega, ih]

theorem absorb_add (v : Chain) (padded : Bits) (n m : ℕ) :
    absorb v padded (n + m) = absorb (absorb v padded n) (padded.drop (512 * n)) m := by
  induction n generalizing v padded with
  | zero => rw [Nat.zero_add, Nat.mul_zero, List.drop_zero, absorb]
  | succ n ih =>
    rw [show n + 1 + m = n + m + 1 by omega, absorb, ih, absorb, List.drop_drop,
      show 512 + 512 * n = 512 * (n + 1) by omega]

def Chain.digest (v : Chain) : Bits :=
  [v.a, v.b, v.c, v.d, v.e, v.f, v.g, v.h].flatMap fun w => bits 32 w.toNat

/-- **SHA-256 of a message of fewer than `2 ^ 64` bits.** -/
noncomputable def sha256 (message : Bits) : Bits :=
  (absorb initial (pad message) ((pad message).length / 512)).digest

end SecureHash
