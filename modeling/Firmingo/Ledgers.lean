/-
Traces of events about handles, and what a trace is allowed to hold.

A program that works with handles of another component is judged by the trace of its calls:
each call must be allowed by what has happened to the handle so far. `account` is the history
of one handle, as a fold over the events that concern it; a new event changes the account of
at most one handle, which is the frame rule all invariants below rest on. `Lawful` says that
every event of a trace was allowed when it was recorded, so what is read off a lawful trace
holds at every moment of the run and not only at its end.
-/
import Firmingo.Runs

set_option autoImplicit false

namespace Ledgers

section Lawful

variable {ε : Type*} {allowed : List ε → ε → Prop} {l : List ε} {e : ε}

/-- Every event is allowed by the events before it. -/
def Lawful (allowed : List ε → ε → Prop) (l : List ε) : Prop :=
  ∀ pre e, pre ++ [e] <+: l → allowed pre e

theorem lawful_nil : Lawful allowed [] := by
  intro pre e h
  simp at h

theorem lawful_concat : Lawful allowed (l ++ [e]) ↔ Lawful allowed l ∧ allowed l e := by
  constructor
  · intro h
    exact ⟨fun pre x hx => h pre x (hx.trans (List.prefix_append l [e])), h l e List.prefix_rfl⟩
  · rintro ⟨h, he⟩ pre x hx
    rcases List.prefix_concat_iff.mp hx with heq | hx
    · obtain ⟨rfl, hsingle⟩ := List.append_inj' heq rfl
      rw [List.singleton_inj.mp hsingle]
      exact he
    · exact h pre x hx

/-- What the first events of a lawful trace are. -/
theorem Lawful.of_prefix (h : Lawful allowed l) {pre : List ε} (hpre : pre <+: l) :
    Lawful allowed pre :=
  fun _ _ hx => h _ _ (hx.trans hpre)

/-- Induction over a lawful trace: the motive may use that the last event was allowed. -/
@[elab_as_elim]
theorem Lawful.induct {P : List ε → Prop} (h : Lawful allowed l) (hnil : P [])
    (hconcat : ∀ l e, Lawful allowed l → allowed l e → P l → P (l ++ [e])) : P l := by
  induction l using List.reverseRecOn with
  | nil => exact hnil
  | append_singleton l e ih =>
    obtain ⟨hl, he⟩ := lawful_concat.mp h
    exact hconcat l e hl he (ih hl)

/-- Induction over what comes after a point of a lawful trace. -/
@[elab_as_elim]
theorem Lawful.extend {P : List ε → Prop} {mid : List ε} (h : Lawful allowed (l ++ mid)) (hnil : P [])
    (hconcat : ∀ m, ∀ e ∈ mid, allowed (l ++ m) e → P m → P (m ++ [e])) : P mid := by
  induction mid using List.reverseRecOn with
  | nil => exact hnil
  | append_singleton mid e ih =>
    rw [← List.append_assoc] at h
    obtain ⟨hl, he⟩ := lawful_concat.mp h
    exact hconcat mid e (by simp) he
      (ih hl fun m x hx => hconcat m x (List.mem_append_left _ hx))

end Lawful

section Account

variable {ε ι σ : Type*} [DecidableEq ι] (key : ε → Option ι) (after : σ → ε → σ) (start : σ)

/-- What the events about `i` have made of it. -/
def account (i : ι) (l : List ε) : σ :=
  Runs.run (fun s e => if key e = some i then after s e else s) start l

theorem account_concat (i : ι) (l : List ε) (e : ε) :
    account key after start i (l ++ [e])
      = if key e = some i then after (account key after start i l) e
        else account key after start i l :=
  Runs.run_concat _ _ _ _

variable {key} {after} {start}

/-- Events about other handles leave an account as it is. -/
theorem account_append_of_ne {i : ι} {l es : List ε} (h : ∀ e ∈ es, key e ≠ some i) :
    account key after start i (l ++ es) = account key after start i l := by
  induction es using List.reverseRecOn with
  | nil => rw [List.append_nil]
  | append_singleton es e ih =>
    rw [← List.append_assoc, account_concat, if_neg (h e (by simp)),
      ih fun x hx => h x (by simp [hx])]

/-- A list that is read off an account is what the events have added to it. -/
theorem account_flatMap {α : Type*} (f : σ → List α) (emit : ε → List α) {i : ι} (hstart : f start = [])
    (hsame : ∀ s e, key e = some i → f (after s e) = f s ++ emit e)
    (hother : ∀ e, key e ≠ some i → emit e = []) (l : List ε) :
    f (account key after start i l) = l.flatMap emit := by
  induction l using List.reverseRecOn with
  | nil => exact hstart
  | append_singleton l e ih =>
    rw [List.flatMap_append, List.flatMap_singleton, ← ih, account_concat]
    split
    next he => exact hsame _ e he
    next he => rw [hother e he, List.append_nil]

/-- A number that is read off an account is the sum of what the events have added to it. -/
theorem account_sum (f : σ → ℕ) (emit : ε → ℕ) {i : ι} (hstart : f start = 0)
    (hsame : ∀ s e, key e = some i → f (after s e) = f s + emit e)
    (hother : ∀ e, key e ≠ some i → emit e = 0) (l : List ε) :
    f (account key after start i l) = (l.map emit).sum := by
  induction l using List.reverseRecOn with
  | nil => exact hstart
  | append_singleton l e ih =>
    rw [List.map_append, List.sum_append, List.map_singleton, List.sum_singleton, ← ih,
      account_concat]
    split
    next he => exact hsame _ e he
    next he => rw [hother e he, Nat.add_zero]

/-- A flag of an account was set at the start or by an event. -/
theorem account_any (f : σ → Bool) (emit : ε → Bool) {i : ι} (hstart : f start = false)
    (hsame : ∀ s e, key e = some i → f (after s e) = (f s || emit e))
    (hother : ∀ e, key e ≠ some i → emit e = false) (l : List ε) :
    f (account key after start i l) = l.any emit := by
  induction l using List.reverseRecOn with
  | nil => exact hstart
  | append_singleton l e ih =>
    rw [List.any_append, List.any_cons, List.any_nil, Bool.or_false, ← ih, account_concat]
    split
    next he => exact hsame _ e he
    next he => rw [hother e he, Bool.or_false]

end Account

end Ledgers
