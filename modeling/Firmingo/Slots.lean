/-
A window of a stream kept in a fixed number of slots.

Position `i` of the stream lives in slot `i % c`. A window of at most `c` elements
that starts at position `base` is then stored without overlap, and `Holds` says
that it is. The rules are the ones a ring buffer needs: writing one more element at
the end of a window that is not full, reading the first one, and forgetting some at
the front or at the back.

The second half is about the free-running 32-bit counters such a buffer is indexed
by. A counter that has counted to `n` reads `n` modulo `2^32`; the distance of two
counters is still exact as long as it is small, and so is the slot, because the
number of slots divides `2^32`.
-/
import Mathlib

set_option autoImplicit false

namespace Slots

/-! ## Windows -/

section Windows

variable {α : Type*} {c : ℕ} [NeZero c]

/-- The slot of a position of the stream. -/
def slot (c : ℕ) [NeZero c] (i : ℕ) : Fin c := Fin.ofNat c i

/-- The window `w`, which starts at position `base`, is in its slots. -/
def Holds (slots : Fin c → α) (base : ℕ) (w : List α) : Prop :=
  ∀ i (h : i < w.length), slots (slot c (base + i)) = w.get ⟨i, h⟩

/-- Two positions closer than `c` have different slots. -/
theorem slot_ne {i j : ℕ} (hij : i < j) (hj : j < i + c) : slot c i ≠ slot c j := by
  intro h
  have hmod : i % c = j % c := by
    simpa [slot, Fin.ext_iff] using h
  -- the difference is a multiple of `c` below `c`
  have hdvd : c ∣ j - i := (Nat.modEq_iff_dvd' hij.le).mp hmod
  have hle := Nat.le_of_dvd (by omega) hdvd
  omega

variable {slots : Fin c → α} {base : ℕ} {w : List α}

theorem holds_nil : Holds slots base [] := by
  intro i h
  simp at h

/-- One more element, written to the slot after the window. -/
theorem Holds.write (h : Holds slots base w) (hroom : w.length < c) (x : α) :
    Holds (Function.update slots (slot c (base + w.length)) x) base (w ++ [x]) := by
  intro i hi
  rw [List.length_append, List.length_singleton] at hi
  by_cases hlast : i = w.length
  · subst hlast
    simp
  · have hlt : i < w.length := by omega
    rw [Function.update_of_ne (slot_ne (by omega) (by omega)), h i hlt]
    simp [List.getElem_append_left hlt]

/-- The first element of the window is in the first slot. -/
theorem Holds.first {x : α} (h : Holds slots base (x :: w)) : slots (slot c base) = x :=
  h 0 (by simp)

/-- Elements forgotten at the front. -/
theorem Holds.drop (h : Holds slots base w) (n : ℕ) : Holds slots (base + n) (w.drop n) := by
  intro i hi
  rw [List.length_drop] at hi
  rw [Nat.add_assoc, h (n + i) (by omega)]
  simp

/-- Elements forgotten at the back. -/
theorem Holds.left {more : List α} (h : Holds slots base (w ++ more)) : Holds slots base w := by
  intro i hi
  rw [h i (by rw [List.length_append]; omega)]
  simp [List.getElem_append_left hi]

end Windows

/-! ## Counters -/

/-- What a counter reads after `n` increments. -/
def counter (n : ℕ) : UInt32 := UInt32.ofNat n

@[simp] theorem counter_zero : counter 0 = 0 := rfl

theorem counter_succ (n : ℕ) : counter n + 1 = counter (n + 1) := by
  simp [counter]

/-- The distance of two counters is exact while it fits the word. -/
theorem toNat_counter_sub {m n : ℕ} (hmn : m ≤ n) (hn : n - m < 2 ^ 32) :
    (counter n - counter m).toNat = n - m := by
  rw [counter, counter, ← UInt32.ofNat_sub hmn, UInt32.toNat_ofNat']
  exact Nat.mod_eq_of_lt hn

/-- The slot of a position from what the counter reads. -/
theorem slot_counter {c : ℕ} [NeZero c] (hc : c ∣ 2 ^ 32) (n : ℕ) :
    slot c (counter n).toNat = slot c n := by
  rw [counter, UInt32.toNat_ofNat']
  simp only [slot, Fin.ext_iff, Fin.val_ofNat]
  exact Nat.mod_mod_of_dvd n hc

end Slots
