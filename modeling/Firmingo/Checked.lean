/-
Arithmetic on machine words and reads of a buffer, with their faults.

A program over unsigned 32-bit words is written here over natural numbers, and every sum
and difference it takes is an operation that fails where the machine would wrap; every read
of a buffer fails where it would be past the end. A run that does not fail is then a run
without wrap and without a stray read, and it has computed with the numbers themselves.

`either` is the short-circuit disjunction: what comes after a true operand is not evaluated,
so it cannot fail.
-/
import Mathlib

set_option autoImplicit false

namespace Checked

/-- What a run may do wrong. -/
inductive Fault
  | wrapped
  | beyond
  deriving DecidableEq, Repr

/-- A run that may fail. -/
abbrev Exec (α : Type) := Except Fault α

def plus (a b : ℕ) : Exec ℕ := if a + b < 2 ^ 32 then .ok (a + b) else .error .wrapped

def minus (a b : ℕ) : Exec ℕ := if b ≤ a then .ok (a - b) else .error .wrapped

/-- `n` bytes of the buffer, from `i` on. -/
def span (buffer : List UInt8) (i n : ℕ) : Exec (List UInt8) :=
  if i + n ≤ buffer.length then .ok ((buffer.drop i).take n) else .error .beyond

/-- `a || b`. -/
def either (a b : Exec Bool) : Exec Bool :=
  a >>= fun x => if x then .ok true else b

@[simp] theorem ok_bind {α β : Type} (a : α) (f : α → Exec β) : ((Except.ok a : Exec α) >>= f) = f a := rfl

@[simp] theorem ok_map {α β : Type} (a : α) (f : α → β) :
    (Except.ok a : Exec α).map f = .ok (f a) := rfl

theorem plus_eq {a b : ℕ} (h : a + b < 2 ^ 32) : plus a b = .ok (a + b) := if_pos h

theorem minus_eq {a b : ℕ} (h : b ≤ a) : minus a b = .ok (a - b) := if_pos h

theorem span_eq {buffer : List UInt8} {i n : ℕ} (h : i + n ≤ buffer.length) :
    span buffer i n = .ok ((buffer.drop i).take n) := if_pos h

/-- The second operand matters only where the first is false. -/
theorem either_eq {a b : Exec Bool} {x y : Bool} (ha : a = .ok x) (hb : x = false → b = .ok y) :
    either a b = .ok (x || y) := by
  rw [either, ha]
  cases x with
  | true => rfl
  | false => exact hb rfl

end Checked
