/-
Runs of a deterministic machine, and what a history says about its current tenure.

A machine is a step function over an alphabet of operations; an adversary that
picks the operations picks everything else too, so "every interleaving" is
"every list of operations". A step that is itself a sequence of smaller actions
is handled through the reflexive transitive closure of the action relation.

`since` is the one way histories are read: the concatenation of what the events
after the last reset emit. It is a left fold, so appending an event is one
rewrite. `Followed` and `Separated` say what comes after, or between, which marks
of a trace, again with one rule for an appended mark.
-/
import Mathlib

set_option autoImplicit false

namespace Runs

/-! ## Runs -/

section Machine

variable {σ ο : Type*} (step : σ → ο → σ)

/-- The state after a list of operations. -/
def run (s : σ) (ops : List ο) : σ := ops.foldl step s

@[simp] theorem run_nil (s : σ) : run step s [] = s := rfl

theorem run_concat (s : σ) (ops : List ο) (o : ο) :
    run step s (ops ++ [o]) = step (run step s ops) o := by
  simp only [run, List.foldl_append, List.foldl_cons, List.foldl_nil]

/-- The invariant rule: what holds at the start and survives every step holds
after every run. -/
theorem run_invariant {P : σ → Prop} {s : σ} (h0 : P s) (hstep : ∀ s o, P s → P (step s o))
    (ops : List ο) : P (run step s ops) := by
  induction ops using List.reverseRecOn with
  | nil => exact h0
  | append_singleton ops o ih =>
    rw [run_concat]
    exact hstep _ _ ih

end Machine

/-- The invariant rule for a step made of actions. -/
theorem actions_invariant {σ : Type*} {act : σ → σ → Prop} {P : σ → Prop}
    (hact : ∀ s s', act s s' → P s → P s') {s s' : σ} (h : Relation.ReflTransGen act s s')
    (hs : P s) : P s' := by
  induction h with
  | refl => exact hs
  | tail _ hstep ih => exact hact _ _ hstep ih

/-! ## Histories -/

section History

variable {ε α : Type*}

/-- What the events after the last reset emit, in order. -/
def since (reset : ε → Bool) (emit : ε → List α) (history : List ε) : List α :=
  history.foldl (fun acc e => if reset e then [] else acc ++ emit e) []

@[simp] theorem since_nil (reset : ε → Bool) (emit : ε → List α) : since reset emit [] = [] := rfl

theorem since_concat (reset : ε → Bool) (emit : ε → List α) (history : List ε) (e : ε) :
    since reset emit (history ++ [e])
      = if reset e then [] else since reset emit history ++ emit e := by
  simp only [since, List.foldl_append, List.foldl_cons, List.foldl_nil]

theorem since_reset {reset : ε → Bool} (emit : ε → List α) (history : List ε) {e : ε}
    (h : reset e = true) : since reset emit (history ++ [e]) = [] := by
  rw [since_concat, if_pos h]

/-- After a reset, what the events emit is all there is. -/
theorem since_after_reset {reset : ε → Bool} (emit : ε → List α) (history during : List ε) {e : ε}
    (h : reset e = true) (hduring : ∀ x ∈ during, reset x = false) :
    since reset emit (history ++ e :: during) = during.flatMap emit := by
  induction during using List.reverseRecOn with
  | nil => exact since_reset emit history h
  | append_singleton during x ih =>
    have hx : reset x = false := hduring x (by simp)
    rw [show history ++ e :: (during ++ [x]) = (history ++ e :: during) ++ [x] by simp, since_concat,
      hx, ih fun y hy => hduring y (by simp [hy])]
    simp

/-- Events that neither reset nor emit do not show. -/
theorem since_quiet (reset : ε → Bool) (emit : ε → List α) (history more : List ε)
    (h : ∀ e ∈ more, reset e = false ∧ emit e = []) :
    since reset emit (history ++ more) = since reset emit history := by
  induction more using List.reverseRecOn with
  | nil => rw [List.append_nil]
  | append_singleton more e ih =>
    have he := h e (by simp)
    rw [← List.append_assoc, since_concat, he.1, he.2, ih fun x hx => h x (by simp [hx])]
    simp

end History

/-! ## Traces -/

section Traces

variable {α : Type*}

/-- Where an element of a list with a new end is. -/
theorem concat_eq_split {l pre mid : List α} {x y : α} (h : l ++ [y] = pre ++ x :: mid) :
    pre = l ∧ x = y ∧ mid = [] ∨ ∃ mid', mid = mid' ++ [y] ∧ l = pre ++ x :: mid' := by
  rcases List.eq_nil_or_concat' mid with rfl | ⟨mid', z, rfl⟩
  · obtain ⟨h1, h2⟩ := List.append_inj' h rfl
    exact .inl ⟨h1.symm, (List.singleton_inj.mp h2).symm, rfl⟩
  · have h' : l ++ [y] = (pre ++ x :: mid') ++ [z] := by rw [h]; simp
    obtain ⟨h1, h2⟩ := List.append_inj' h' rfl
    exact .inr ⟨mid', by rw [List.singleton_inj.mp h2], h1⟩

/-- What holds at every index holds at every split of the list. -/
theorem forall_split {P : List α → α → Prop} {l : List α}
    (h : ∀ i (hi : i < l.length), P (l.take i) (l.get ⟨i, hi⟩)) :
    ∀ pre x, pre ++ [x] <+: l → P pre x := by
  rintro pre x ⟨post, rfl⟩
  simpa using h pre.length (by simp)

section Append

variable {l new : List α} (hnew : new.length ≤ 1)
include hnew

/-- What holds of every element and of what comes after it, when at most one is appended. -/
theorem splits_append {Q Q' : α → List α → Prop} (h : ∀ pre x post, l = pre ++ x :: post → Q x post)
    (hold : ∀ x post, Q x post → Q' x (post ++ new)) (hstart : ∀ x ∈ new, Q' x []) :
    ∀ pre x post, l ++ new = pre ++ x :: post → Q' x post := by
  intro pre x post heq
  rcases new with _ | ⟨y, _ | ⟨z, rest⟩⟩
  · rw [List.append_nil] at heq
    simpa using hold x post (h pre x post heq)
  · rcases concat_eq_split heq with ⟨-, rfl, rfl⟩ | ⟨post', rfl, hl⟩
    · exact hstart x (List.mem_singleton.mpr rfl)
    · exact hold x post' (h pre x post' hl)
  · simp at hnew

/-- What holds of every two elements and of what comes between them. -/
theorem pairs_append {Q : α → List α → α → Prop}
    (h : ∀ pre x mid y post, l = pre ++ x :: (mid ++ y :: post) → Q x mid y)
    (hlast : ∀ pre x mid, l = pre ++ x :: mid → ∀ y ∈ new, Q x mid y) :
    ∀ pre x mid y post, l ++ new = pre ++ x :: (mid ++ y :: post) → Q x mid y := by
  intro pre x mid y post heq
  rcases new with _ | ⟨z, _ | ⟨z', rest⟩⟩
  · rw [List.append_nil] at heq
    exact h pre x mid y post heq
  · rw [show pre ++ x :: (mid ++ y :: post) = (pre ++ x :: mid) ++ y :: post by simp] at heq
    rcases concat_eq_split heq with ⟨hl, rfl, -⟩ | ⟨post', -, hl⟩
    · exact hlast pre x mid hl.symm y (List.mem_singleton.mpr rfl)
    · exact h pre x mid y post' (by rw [hl]; simp)
  · simp at hnew

end Append

/-- Every `p` is followed by a `q`, some time. -/
def Followed (p q : α → Prop) (l : List α) : Prop :=
  ∀ pre x post, l = pre ++ x :: post → p x → ∃ z ∈ post, q z

/-- Between any two `p` there is a `q`. -/
def Separated (p q : α → Prop) (l : List α) : Prop :=
  ∀ pre x mid y post, l = pre ++ x :: (mid ++ y :: post) → p x → p y → ∃ z ∈ mid, q z

variable {p q : α → Prop} {l : List α} {y : α}

theorem followed_nil : Followed p q [] := by
  intro pre x post h
  simp at h

theorem separated_nil : Separated p q [] := by
  intro pre x mid y post h
  simp at h

theorem Followed.concat (h : Followed p q l) (hy : ¬ p y) : Followed p q (l ++ [y]) := by
  refine splits_append le_rfl h (fun x post hpost hx => ?_) fun x hx hp => ?_
  · obtain ⟨z, hz, hq⟩ := hpost hx
    exact ⟨z, List.mem_append_left _ hz, hq⟩
  · rw [List.mem_singleton.mp hx] at hp
    exact absurd hp hy

/-- A `q` at the end follows everything. -/
theorem followed_concat (hq : q y) (hy : ¬ p y) : Followed p q (l ++ [y]) := by
  intro pre x post heq hx
  rcases concat_eq_split heq with ⟨-, rfl, -⟩ | ⟨mid, rfl, -⟩
  · exact absurd hx hy
  · exact ⟨y, by simp, hq⟩

/-- A new end keeps separation, if it is no `p` or every `p` was followed. -/
theorem Separated.concat (h : Separated p q l) (hy : p y → Followed p q l) :
    Separated p q (l ++ [y]) := by
  refine pairs_append le_rfl h fun pre x mid hl z hz hx hp => ?_
  rw [List.mem_singleton.mp hz] at hp
  exact hy hp pre x mid hl hx

end Traces

end Runs
