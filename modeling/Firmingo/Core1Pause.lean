/-
The park handshake between the cores: `Core1Pause` of
`experiments/managed_sketch/core1_pause.cpp`.

Each atomic load and store is one step, and steps of the two cores interleave
freely. Core 0 calls `request`, `parked` and `release` in any order; core 1 calls
`park_if_requested` again and again, with the sketch's own code in between. Both
flags only ever hold 0 and 1.

`parked_` is 1 in the park loop and also after it, until core 1 has cleared it. A
request that is stored in that window finds the flag of the previous park.
-/
import Firmingo.Runs

set_option autoImplicit false

namespace Firmingo.Core1Pause

/-- Where core 0 is: between calls, or inside `request` before its next access. -/
inductive Core0
  | idle
  | load_parked
  | store_requested
  deriving DecidableEq, Repr

/-- The access core 1 makes next. At `first_check` it is outside
`park_if_requested` or about to return; `loop` is the park loop. -/
inductive Core1
  | first_check
  | second_check
  | store_parked
  | loop
  | clear_parked
  deriving DecidableEq, Repr

/-- The two flags, the two cores, and whether a request was granted and not released. -/
structure State where
  requested : Bool := false
  parked : Bool := false
  core0 : Core0 := .idle
  core1 : Core1 := .first_check
  held : Bool := false
  deriving DecidableEq, Repr

/-- One access of one core. -/
inductive Access
  /-- Core 0 calls `request` and loads `requested_`. -/
  | request
  /-- Core 0 makes the next access of its `request`. -/
  | proceed
  /-- Core 0 calls `parked`. -/
  | parked
  /-- Core 0 calls `release`. -/
  | release
  /-- Core 1 makes its next access. -/
  | core1
  deriving DecidableEq, Repr

/-- `Core1Pause::request`, `parked` and `release`: core 0's accesses. -/
def core0_step (s : State) : Access → State
  | .request => if s.core0 = .idle && !s.requested then { s with core0 := .load_parked } else s
  | .proceed =>
    match s.core0 with
    | .idle => s
    | .load_parked => { s with core0 := if s.parked then .idle else .store_requested }
    | .store_requested => { s with core0 := .idle, requested := true, held := true }
  | .release => if s.core0 = .idle then { s with requested := false, held := false } else s
  | .parked | .core1 => s

/-- `Core1Pause::park_if_requested`, called again after it returns. -/
def core1_step (s : State) : State :=
  match s.core1 with
  | .first_check => { s with core1 := if s.requested then .second_check else .first_check }
  | .second_check => { s with core1 := if s.requested then .store_parked else .first_check }
  | .store_parked => { s with parked := true, core1 := .loop }
  | .loop => { s with core1 := if s.requested then .loop else .clear_parked }
  | .clear_parked => { s with parked := false, core1 := .first_check }

def step (s : State) : Access → State
  | .core1 => core1_step s
  | access => core0_step s access

/-- The state after a run from boot. -/
def after (run : List Access) : State := Runs.run step {} run

theorem after_concat (run : List Access) (a : Access) : after (run ++ [a]) = step (after run) a :=
  Runs.run_concat step {} run a

/-! ## What holds in every run -/

/-- Each flag follows its one writer. -/
structure Inv (s : State) : Prop where
  parked_iff : s.parked = true ↔ s.core1 = .loop ∨ s.core1 = .clear_parked
  requested_eq : s.requested = s.held

theorem Inv.core1_step {s : State} (h : Inv s) : Inv (core1_step s) := by
  have hp := h.parked_iff
  unfold Core1Pause.core1_step
  split
  · refine ⟨?_, h.requested_eq⟩
    cases s.requested <;> simp_all
  · refine ⟨?_, h.requested_eq⟩
    cases s.requested <;> simp_all
  · exact ⟨by simp, h.requested_eq⟩
  · refine ⟨?_, h.requested_eq⟩
    cases s.requested <;> simp_all
  · exact ⟨by simp, h.requested_eq⟩

/-- An access of core 0 keeps the handshake in order. -/
theorem Inv.core0_step {s : State} (h : Inv s) (a : Access) : Inv (core0_step s a) := by
  cases a with
  | request =>
    simp only [Core1Pause.core0_step]
    split
    · exact ⟨h.parked_iff, h.requested_eq⟩
    · exact h
  | proceed =>
    simp only [Core1Pause.core0_step]
    split
    · exact h
    · exact ⟨h.parked_iff, h.requested_eq⟩
    · exact ⟨h.parked_iff, rfl⟩
  | release =>
    simp only [Core1Pause.core0_step]
    split
    · exact ⟨h.parked_iff, rfl⟩
    · exact h
  | parked => exact h
  | core1 => exact h

theorem Inv.step {s : State} (h : Inv s) (a : Access) : Inv (step s a) := by
  cases a with
  | core1 => exact h.core1_step
  | request => exact h.core0_step .request
  | proceed => exact h.core0_step .proceed
  | parked => exact h.core0_step .parked
  | release => exact h.core0_step .release

theorem inv_after (run : List Access) : Inv (after run) :=
  Runs.run_invariant (P := Inv) Core1Pause.step ⟨by decide, rfl⟩ (fun _ a h => h.step a) run

/-! ## What a parked core 1 means -/

/-- Core 0 holds a granted request and `parked` would return true. -/
def Confirmed (s : State) : Prop := s.held = true ∧ s.core0 = .idle ∧ s.parked = true

/-- A confirmed park after this run is a park: core 1 is in the loop, and stays in it
until core 0 calls `release`. -/
def Sound (run : List Access) : Prop :=
  Confirmed (after run) → (after run).core1 = .loop ∧
    ∀ later, Access.release ∉ later → (after (run ++ later)).core1 = .loop

/-- Core 0 is about to grant its request while core 1 has left the loop of an earlier
park and not yet cleared `parked_`. -/
def Stale (s : State) : Prop := s.core0 = .store_requested ∧ s.core1 = .clear_parked

instance (s : State) : Decidable (Confirmed s) := inferInstanceAs (Decidable (_ ∧ _ ∧ _))
instance (s : State) : Decidable (Stale s) := inferInstanceAs (Decidable (_ ∧ _))

/-- While a request is held, core 1 does not leave the loop. -/
theorem loop_step {s : State} (hi : Inv s) (hheld : s.held = true) (hloop : s.core1 = .loop)
    {a : Access} (ha : a ≠ .release) : (step s a).held = true ∧ (step s a).core1 = .loop := by
  have hreq : s.requested = true := hi.requested_eq.trans hheld
  cases a with
  | core1 => simp [step, core1_step, hloop, hreq, hheld]
  | release => exact absurd rfl ha
  | request => simp [step, core0_step, hreq, hheld, hloop]
  | proceed =>
    simp only [step, core0_step]
    split <;> simp [hheld, hloop]
  | parked => exact ⟨hheld, hloop⟩

/-- Until the release, core 1 stays in the park loop. -/
theorem loop_run (run : List Access) (hheld : (after run).held = true)
    (hloop : (after run).core1 = .loop) (later : List Access) (hl : Access.release ∉ later) :
    (after (run ++ later)).held = true ∧ (after (run ++ later)).core1 = .loop := by
  induction later using List.reverseRecOn with
  | nil => rw [List.append_nil]; exact ⟨hheld, hloop⟩
  | append_singleton later a ih =>
    simp only [List.mem_append, List.mem_singleton, not_or] at hl
    obtain ⟨hheld', hloop'⟩ := ih hl.1
    rw [← List.append_assoc, after_concat]
    exact loop_step (inv_after _) hheld' hloop' (fun ha => hl.2 ha.symm)

/-- A step that grants no stale request leaves no held request with a leaving core 1. -/
theorem fresh_step {s : State} (hi : Inv s) (hfresh : s.held = true → s.core1 ≠ .clear_parked)
    {a : Access} (ha : ¬ (a = .proceed ∧ Stale s)) :
    (step s a).held = true → (step s a).core1 ≠ .clear_parked := by
  cases a with
  | core1 =>
    intro hheld
    have hheld' : s.held = true := by
      revert hheld
      simp only [step, core1_step]
      split <;> exact id
    have hreq : s.requested = true := hi.requested_eq.trans hheld'
    simp only [step, core1_step, hreq, if_true]
    split <;> simp
  | request =>
    simp only [step, core0_step]
    split <;> exact hfresh
  | proceed =>
    simp only [step, core0_step]
    split
    · exact hfresh
    · exact hfresh
    · rename_i hstore
      exact fun _ hleave => ha ⟨rfl, hstore, hleave⟩
  | release =>
    simp only [step, core0_step]
    split
    · simp
    · exact hfresh
  | parked => exact hfresh

/-- A run in which no request is granted stale. -/
def Guarded (run : List Access) : Prop :=
  ∀ front, front ++ [.proceed] <+: run → ¬ Stale (after front)

theorem fresh_after {run : List Access} (h : Guarded run) :
    (after run).held = true → (after run).core1 ≠ .clear_parked := by
  induction run using List.reverseRecOn with
  | nil => simp [after]
  | append_singleton run a ih =>
    rw [after_concat]
    refine fresh_step (inv_after run) (ih fun front hf => h front (hf.trans ⟨[a], rfl⟩)) ?_
    rintro ⟨rfl, hstale⟩
    exact h run List.prefix_rfl hstale

/-- **When the handshake is safe**: every confirmed park in a run is a park exactly if
the run grants no stale request. -/
theorem confirmed_park_iff (run : List Access) :
    (∀ front, front <+: run → Sound front) ↔ Guarded run := by
  constructor
  · intro hsound front hfront hstale
    -- the stale grant itself is confirmed by the flag of the earlier park
    have hgrant : after (front ++ [.proceed])
        = { after front with core0 := .idle, requested := true, held := true } := by
      rw [after_concat]
      simp [step, core0_step, hstale.1]
    have hparked : (after front).parked = true := (inv_after front).parked_iff.mpr (.inr hstale.2)
    have hloop := (hsound _ hfront (by rw [hgrant]; exact ⟨rfl, rfl, hparked⟩)).1
    rw [hgrant] at hloop
    exact absurd (hstale.2.symm.trans hloop) (by decide)
  · intro hguard front hfront hconf
    have hfresh := fresh_after (show Guarded front from fun f hf => hguard f (hf.trans hfront))
    have hloop : (after front).core1 = .loop := by
      rcases (inv_after front).parked_iff.mp hconf.2.2 with hl | hl
      · exact hl
      · exact absurd hl (hfresh hconf.1)
    exact ⟨hloop, fun later hl => (loop_run front hconf.1 hloop later hl).2⟩

/-- A whole handshake: the granted request is confirmed once core 1 is in the loop. -/
def park_run : List Access :=
  [.request, .proceed, .proceed, .core1, .core1, .core1, .parked]

theorem confirmed_park_iff_handshake : Confirmed (after park_run) ∧ Sound park_run := by
  refine ⟨by decide, (confirmed_park_iff park_run).mpr ?_ park_run List.prefix_rfl⟩
  -- core 1 never leaves the loop here, so no prefix is stale
  have hinits : ∀ front ∈ park_run.inits, ¬ Stale (after front) := by decide
  exact fun front hfront =>
    hinits front ((List.mem_inits front park_run).mpr ((List.prefix_append _ _).trans hfront))

/-- A request that times out, and one that is granted while core 1 is leaving the loop
it entered for the first: core 0 reads a park, and core 1 runs on. -/
def stale_run : List Access :=
  [.request, .proceed, .proceed, .core1, .core1, .release, .request, .proceed, .core1, .core1,
    .proceed]

theorem confirmed_park_stale :
    Confirmed (after stale_run) ∧ (after stale_run).core1 = .clear_parked ∧
      (after (stale_run ++ [.parked, .core1])).core1 = .first_check ∧
      (after (stale_run ++ [.parked, .core1])).held = true := by
  decide

end Firmingo.Core1Pause
