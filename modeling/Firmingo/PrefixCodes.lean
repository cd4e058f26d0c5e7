/-
Parsing a stream as code words of a prefix code.

`code` writes an element, `valid` says which elements count. In a prefix code at most
one valid element starts a given stream. A stream then has one longest parse: a list
of valid elements whose code words start the stream, and a rest that no code word
starts. Every other list of valid elements that starts the stream is a prefix of it.
-/
import Mathlib

set_option autoImplicit false

namespace PrefixCodes

variable {α φ : Type*} (code : φ → List α) (valid : φ → Prop)

/-- At most one valid element starts a stream. -/
def PrefixFree : Prop :=
  ∀ f g s, valid f → valid g → code f <+: s → code g <+: s → f = g

/-- A parse that cannot go on. -/
structure LongestParse (s : List α) (fs : List φ) (rest : List α) : Prop where
  split : s = fs.flatMap code ++ rest
  all_valid : ∀ f ∈ fs, valid f
  stuck : ∀ f, valid f → ¬ code f <+: rest

variable {code valid}

/-- Every parse is part of the longest one. -/
theorem LongestParse.longest (hfree : PrefixFree code valid) {s rest : List α} {fs : List φ}
    (h : LongestParse code valid s fs rest) {gs : List φ} (hgs : ∀ g ∈ gs, valid g)
    (hpre : gs.flatMap code <+: s) : gs <+: fs := by
  induction fs generalizing s gs with
  | nil =>
    cases gs with
    | nil => exact List.nil_prefix
    | cons g gs =>
      have hs : s = rest := h.split
      rw [hs, List.flatMap_cons] at hpre
      exact absurd ((List.prefix_append _ _).trans hpre) (h.stuck g (hgs g (by simp)))
  | cons f fs ih =>
    cases gs with
    | nil => exact List.nil_prefix
    | cons g gs =>
      have hs : s = code f ++ (fs.flatMap code ++ rest) := by
        rw [h.split, List.flatMap_cons, List.append_assoc]
      rw [List.flatMap_cons] at hpre
      -- the first words both start the stream, so they are of one element
      have hf : code f <+: s := by
        rw [hs]
        exact List.prefix_append _ _
      have heq : g = f := hfree g f s (hgs g (by simp)) (h.all_valid f (by simp))
        ((List.prefix_append _ _).trans hpre) hf
      subst heq
      rw [hs, List.prefix_append_right_inj] at hpre
      rw [List.cons_prefix_cons]
      refine ⟨rfl, ih ⟨rfl, ?_, h.stuck⟩ ?_ hpre⟩
      · intro f' hf'
        exact h.all_valid f' (List.mem_cons_of_mem _ hf')
      · intro g' hg'
        exact hgs g' (List.mem_cons_of_mem _ hg')

/-- There is one longest parse. -/
theorem LongestParse.unique (hfree : PrefixFree code valid) {s rest rest' : List α}
    {fs gs : List φ} (h : LongestParse code valid s fs rest)
    (h' : LongestParse code valid s gs rest') : fs = gs ∧ rest = rest' := by
  have hfs : fs <+: gs := by
    apply h'.longest hfree h.all_valid
    rw [h.split]
    exact List.prefix_append _ _
  have hgs : gs <+: fs := by
    apply h.longest hfree h'.all_valid
    rw [h'.split]
    exact List.prefix_append _ _
  have heq : fs = gs := hfs.eq_of_length_le hgs.length_le
  subst heq
  refine ⟨rfl, ?_⟩
  have hrest := h.split.symm.trans h'.split
  rwa [List.append_cancel_left_eq] at hrest

end PrefixCodes
