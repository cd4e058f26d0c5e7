/-
Bounded queues with their accounts.

A queue holds at most `capacity` items, oldest first. A push takes the leading items that fit,
a pop the oldest ones, and a flush drops what is left. The queue keeps how many items were
accepted, popped and flushed, and how many it ever held at once: the accounts balance after
every operation, whatever the sizes asked for. A count that each step raises to what it sees
is, after a run, the largest value ever seen.
-/
import Firmingo.Runs

set_option autoImplicit false

namespace Fifo

variable {α : Type*}

/-- A queue and its accounts. -/
structure Queue (α : Type*) where
  items : List α := []
  accepted : ℕ := 0
  popped : ℕ := 0
  flushed : ℕ := 0
  peak : ℕ := 0

namespace Queue

/-- How many of the items are accepted, and the queue with them at its end. -/
def push (capacity : ℕ) (q : Queue α) (data : List α) : ℕ × Queue α :=
  let count := min data.length (capacity - q.items.length)
  (count, { q with
    items := q.items ++ data.take count
    accepted := q.accepted + count
    peak := max q.peak (q.items.length + count) })

/-- The oldest items, and the queue without them. -/
def pop (q : Queue α) (size : ℕ) : List α × Queue α :=
  (q.items.take size, { q with
    items := q.items.drop size
    popped := q.popped + (q.items.take size).length })

/-- The queue with nothing in it. -/
def flush (q : Queue α) : Queue α :=
  { q with items := [], flushed := q.flushed + q.items.length }

/-- The queue fits, and every item accepted is popped, flushed or still there. -/
structure Balanced (capacity : ℕ) (q : Queue α) : Prop where
  fits : q.items.length ≤ capacity
  peaked : q.items.length ≤ q.peak
  balance : q.accepted = q.popped + q.items.length + q.flushed

variable {capacity : ℕ} {q : Queue α}

theorem balanced_empty : Balanced capacity ({} : Queue α) :=
  ⟨Nat.zero_le _, le_refl _, rfl⟩

theorem Balanced.push (h : Balanced capacity q) (data : List α) : Balanced capacity (q.push capacity data).2 := by
  obtain ⟨hfits, hpeaked, hbalance⟩ := h
  simp only [Queue.push]
  refine ⟨?_, ?_, ?_⟩
  · simp only [List.length_append, List.length_take]
    omega
  · simp only [List.length_append, List.length_take]
    omega
  · simp only [List.length_append, List.length_take]
    omega

theorem Balanced.pop (h : Balanced capacity q) (size : ℕ) : Balanced capacity (q.pop size).2 := by
  obtain ⟨hfits, hpeaked, hbalance⟩ := h
  simp only [Queue.pop]
  refine ⟨?_, ?_, ?_⟩
  · simp only [List.length_drop]
    omega
  · simp only [List.length_drop]
    omega
  · simp only [List.length_take, List.length_drop]
    omega

theorem Balanced.flush (h : Balanced capacity q) : Balanced capacity q.flush := by
  refine ⟨Nat.zero_le _, Nat.zero_le _, ?_⟩
  rw [Queue.flush, h.balance, List.length_nil, Nat.add_zero, Nat.add_assoc, Nat.add_comm q.items.length]

/-- Each operation raises the peak to what is then pending. -/
theorem push_peak (data : List α) :
    (q.push capacity data).2.peak = max q.peak (q.push capacity data).2.items.length := by
  simp only [Queue.push, List.length_append, List.length_take]
  omega

theorem Balanced.pop_peak (h : Balanced capacity q) (size : ℕ) :
    (q.pop size).2.peak = max q.peak (q.pop size).2.items.length := by
  have hpeaked := (h.pop size).peaked
  exact (max_eq_left hpeaked).symm

theorem flush_peak (q : Queue α) : q.flush.peak = max q.peak q.flush.items.length :=
  (Nat.max_zero q.peak).symm

theorem Balanced.idle_peak (h : Balanced capacity q) : q.peak = max q.peak q.items.length :=
  (max_eq_left h.peaked).symm

end Queue

/-- **A count that every step raises to the present level** is the highest level of the run. -/
theorem isGreatest_peak {σ ο : Type*} {step : σ → ο → σ} {s : σ} (level peak : σ → ℕ)
    (hstart : peak s = level s) (ops : List ο)
    (hstep : ∀ before o after, ops = before ++ o :: after →
      peak (Runs.run step s (before ++ [o]))
        = max (peak (Runs.run step s before)) (level (Runs.run step s (before ++ [o])))) :
    IsGreatest { n | ∃ before after, ops = before ++ after ∧ n = level (Runs.run step s before) }
      (peak (Runs.run step s ops)) := by
  induction ops using List.reverseRecOn with
  | nil =>
    refine ⟨⟨[], [], rfl, hstart⟩, ?_⟩
    rintro n ⟨before, after, hsplit, rfl⟩
    obtain ⟨rfl, rfl⟩ := List.append_eq_nil_iff.mp hsplit.symm
    exact hstart.ge
  | append_singleton ops o ih =>
    obtain ⟨⟨before, after, hops, hpeak⟩, hbound⟩ := ih fun b x a hb =>
      hstep b x (a ++ [o]) (by rw [hb]; simp)
    have hlast := hstep ops o [] rfl
    constructor
    · rcases max_choice (peak (Runs.run step s ops)) (level (Runs.run step s (ops ++ [o]))) with h | h
      · exact ⟨before, after ++ [o], by rw [hops]; simp, by rw [hlast, h, hpeak]⟩
      · exact ⟨ops ++ [o], [], by simp, by rw [hlast, h]⟩
    · rintro n ⟨b, a, hsplit, rfl⟩
      rw [hlast]
      -- the prefix is the whole run, or one of the shorter run
      rcases List.eq_nil_or_concat a with rfl | ⟨a', x, rfl⟩
      · rw [List.append_nil] at hsplit
        rw [← hsplit]
        exact le_max_right _ _
      · rw [List.concat_eq_append, ← List.append_assoc] at hsplit
        obtain ⟨hops', -⟩ := List.append_inj' hsplit rfl
        exact (hbound ⟨b, a', hops', rfl⟩).trans (le_max_left _ _)

end Fifo
