/-
Who owns the channel.

Ownership is recorded twice, in the stream (`owner_`) and in the session
(`owned_`), and it is lost on many paths. The machine has one action for each
direction, so the backend's calls form tenures: a discard and an opened, then in
the end a closed and a discard, with nothing of the kind in between.
-/
import Firmingo.System

set_option autoImplicit false

namespace Firmingo

open Machine

/-! ## Tenures -/

/-- The calls that start and end a tenure. -/
def lifecycle : Event → Bool
  | .discard _ | .opened _ | .closed _ => true
  | _ => false

/-- A history whose tenures are complete, but perhaps the last, with its current
owner (zero for none). The two events of either end are adjacent in the history. -/
inductive Tenures : List Event → UInt32 → Prop
  | none : Tenures [] 0
  | other {history : List Event} {owner : UInt32} {e : Event} :
      Tenures history owner → lifecycle e = false → Tenures (history ++ [e]) owner
  | opened {history : List Event} {t : UInt32} :
      Tenures history 0 → t ≠ 0 → Tenures (history ++ [.discard t, .opened t]) t
  | closed {history : List Event} {t : UInt32} :
      Tenures history t → t ≠ 0 → Tenures (history ++ [.closed t, .discard t]) 0

theorem Tenures.others {history more : List Event} {owner : UInt32} (h : Tenures history owner)
    (hm : ∀ e ∈ more, lifecycle e = false) : Tenures (history ++ more) owner := by
  induction more using List.reverseRecOn with
  | nil => rwa [List.append_nil]
  | append_singleton more e ih =>
    rw [← List.append_assoc]
    exact .other (ih fun x hx => hm x (by simp [hx])) (hm e (by simp))

/-- What an action adds to the history: nothing that starts or ends a tenure, or one
end of one. -/
theorem Machine.Act.calls {k k' : Config} (h : Act k k') (hi : Inv k) :
    (∃ more, k'.shared.history = k.shared.history ++ more ∧ (∀ e ∈ more, lifecycle e = false) ∧
      k'.shared.owner = k.shared.owner) ∨
    (k'.shared.history = k.shared.history ++ opening k.party.token ∧ k.shared.owner = 0 ∧
      k'.shared.owner = k.party.token) ∨
    (k'.shared.history = k.shared.history ++ ending k.party.token ∧
      k.shared.owner = k.party.token ∧ k'.shared.owner = 0) := by
  cases h with
  | feed p s bytes running incomplete =>
    refine .inl ⟨_, rfl, ?_, rfl⟩
    intro e he
    split at he
    · rw [List.mem_singleton.mp he]
      rfl
    · cases he
  | send p s n running fits => exact .inl ⟨_, rfl, by simp [lifecycle], rfl⟩
  | answer p s payload limit running ready control idle limit_ge limit_le fits buffer =>
    exact .inl ⟨_, rfl, by simp [lifecycle], rfl⟩
  | acquire p s running token free ready control => exact .inr (.inl ⟨rfl, free, rfl⟩)
  | release p s owned => exact .inr (.inr ⟨rfl, hi.owned_iff.mp owned, rfl⟩)
  | stop p s result limit unowned limit_ge limit_le terminal =>
    exact .inl ⟨[], by simp, by simp, rfl⟩
  | pull p s count running owned empty ready serial count_eq => exact .inl ⟨[], by simp, by simp, rfl⟩
  | push p s n running owned fits => exact .inl ⟨_, rfl, by simp [lifecycle], rfl⟩
  | fetch p s bytes running owned empty fits => exact .inl ⟨_, rfl, by simp [lifecycle], rfl⟩
  | emit p s running owned some_data idle => exact .inl ⟨_, rfl, by simp [lifecycle], rfl⟩

/-- The histories of a device are made of tenures. -/
theorem tenures_rule :
    System.Rule (fun _ => True) (fun s => Tenures s.history s.owner) where
  start := .none
  act := by
    intro k k' hact hi _ hg
    refine ⟨trivial, ?_⟩
    rcases hact.calls hi with ⟨more, hh, hm, ho⟩ | ⟨hh, hfree, ho⟩ | ⟨hh, howner, ho⟩
    · rw [hh, ho]
      exact hg.others hm
    · rw [hfree] at hg
      rw [hh, ho]
      exact .opened hg hi.token
    · rw [howner] at hg
      rw [hh, ho]
      exact .closed hg hi.token
  other := fun _ _ _ _ => trivial
  fresh := fun _ _ _ _ => trivial
  created := fun _ hg => .other hg rfl

/-! ## On whose behalf -/

/-- The calls in a stretch of history. -/
def calls (events : List Event) : List Event := events.filter lifecycle

/-- A session that does not own the channel makes no call, or acquires it first. -/
theorem Machine.Acts.calls_of_not_owner {k k' : Config} (h : Acts k k') (hi : Inv k)
    (hne : k.shared.owner ≠ k.party.token) :
    ∃ more, k'.shared.history = k.shared.history ++ more ∧
      (calls more = [] ∧ k'.shared.owner = k.shared.owner ∨
        k.shared.owner = 0 ∧ opening k.party.token <+: calls more) := by
  induction h with
  | refl => exact ⟨[], by simp, .inl ⟨rfl, rfl⟩⟩
  | @tail b c hab hact ih =>
    obtain ⟨more, hh, hcalls⟩ := ih
    have hi' := Acts.inv hab hi
    have htoken : b.party.token = k.party.token := Acts.token_eq hab
    -- the first call a session makes is an acquire, and nothing undoes that
    rcases hact.calls hi' with ⟨more', hh', hm, ho⟩ | ⟨hh', hfree, -⟩ | ⟨hh', howner, -⟩
    · have hnone : calls more' = [] := List.filter_eq_nil_iff.mpr fun e he => by simp [hm e he]
      refine ⟨more ++ more', by rw [hh', hh, List.append_assoc], ?_⟩
      rw [calls, List.filter_append, ← calls, ← calls, hnone, List.append_nil, ho]
      exact hcalls
    · refine ⟨more ++ opening k.party.token, by rw [hh', hh, htoken, List.append_assoc], .inr ?_⟩
      rw [calls, List.filter_append, ← calls]
      rcases hcalls with ⟨hnone, hsame⟩ | ⟨h0, hpre⟩
      · rw [hnone]
        exact ⟨by rw [← hsame, hfree], List.prefix_rfl⟩
      · exact ⟨h0, hpre.trans (List.prefix_append _ _)⟩
    · refine ⟨more ++ ending k.party.token, by rw [hh', hh, htoken, List.append_assoc], .inr ?_⟩
      rw [calls, List.filter_append, ← calls]
      rcases hcalls with ⟨-, hsame⟩ | ⟨h0, hpre⟩
      · rw [hsame, htoken] at howner
        exact absurd howner hne
      · exact ⟨h0, hpre.trans (List.prefix_append _ _)⟩

/-! ## Ownership -/

section Runs

variable {β υ : Type} [StreamBackend β] [UploadService υ]

/-- The session an operation is a call of. -/
def Op.caller : Op β υ → Option UInt32
  | .poll t _ | .close t | .destroy t => some t
  | _ => none

/-- What an operation may add to the history: no call at all, or only calls on behalf
of its caller, who owns the channel or first acquires it free. -/
def CallsFor (caller : Option UInt32) (owner : UInt32) (before after : List Event) : Prop :=
  ∃ more, after = before ++ more ∧
    (calls more = [] ∨ ∃ t, caller = some t ∧ (∀ e ∈ more, by_token t e = true) ∧
      (owner = t ∨ owner = 0 ∧ [.discard t, .opened t] <+: calls more))

omit [StreamBackend β] [UploadService υ] in
/-- What a call on session `t` adds to the history. -/
theorem System.on_calls {sys : System β υ} (h : System.Ok sys) (t : UInt32) {m : Ctx β υ → Ctx β υ}
    (hm : ∀ {c : Ctx β υ}, Inv c.config → Acts c.config (m c).config) :
    CallsFor (some t) sys.channel.owner sys.channel.history (sys.on t m).channel.history := by
  unfold System.on
  split
  · exact ⟨[], by simp, .inl rfl⟩
  rename_i s hs
  have htoken : s.owner = t := h.token hs
  subst htoken
  have hacts := hm (c := sys.ctx s) (h.inv hs)
  obtain ⟨more, hseen⟩ := Acts.seen hacts (h.inv hs)
  refine ⟨more, hseen.history, ?_⟩
  by_cases howner : sys.channel.owner = s.owner
  · exact .inr ⟨_, rfl, hseen.named, .inl howner⟩
  · obtain ⟨more', hh, hcalls⟩ := Acts.calls_of_not_owner hacts (h.inv hs) howner
    obtain rfl : more' = more := List.append_cancel_left (hh.symm.trans hseen.history)
    rcases hcalls with ⟨hnone, -⟩ | hpre
    · exact .inl hnone
    · exact .inr ⟨_, rfl, hseen.named, .inr hpre⟩

/-- What any operation adds to the history. -/
theorem System.step_calls {sys : System β υ} (h : System.Ok sys) (o : Op β υ) :
    CallsFor o.caller sys.channel.owner sys.channel.history (sys.step o).channel.history := by
  cases o with
  | construct owner now identity has_upload =>
    simp only [System.step]
    split
    · exact ⟨[], by simp, .inl rfl⟩
    · exact ⟨[.created owner], rfl, .inl rfl⟩
  | poll t input => exact System.on_calls h t (fun hi => Ctx.poll_acts hi input)
  | close t => exact System.on_calls h t Ctx.close_acts
  | destroy t => exact System.on_calls h t Ctx.close_acts
  | backend b => exact ⟨[], by simp [System.step], .inl rfl⟩
  | upload u => exact ⟨[], by simp [System.step], .inl rfl⟩

/-- **Ownership is exclusive, and both records of it agree**, after every run of any
number of sessions with any behaviour of transports, backend and upload service:
the channel's owner is the one live session that believes it owns the channel; a
session that has ended owns nothing; the backend's calls form tenures; and an
operation makes such calls only on behalf of its own session, which owns the
channel or first acquires it free. -/
theorem ownership_exclusive (b : β) (u : υ) (ops : List (Op β υ)) :
    let sys := System.after b u ops
    (∀ t, (sys.channel.owner = t ∧ t ≠ 0) ↔ ∃ s, sys.sessions t = some s ∧ s.owned = true) ∧
    (∀ t s, sys.sessions t = some s → s.result ≠ .running → s.owned = false) ∧
    Tenures sys.channel.history sys.channel.owner ∧
    (∀ o : Op β υ, CallsFor o.caller sys.channel.owner sys.channel.history
      (sys.step o).channel.history) := by
  intro sys
  have h := tenures_rule.after b u ops
  have hok : System.Ok sys := h.ok
  refine ⟨fun t => ⟨?_, ?_⟩, ?_, h.channel, System.step_calls hok⟩
  · rintro ⟨howner, h0⟩
    obtain ⟨s, hs⟩ := hok.held howner h0
    have htoken : sys.channel.owner = s.owner := howner.trans (hok.token hs).symm
    exact ⟨s, hs, (hok.inv hs).owned_iff.mpr htoken⟩
  · rintro ⟨s, hs, howned⟩
    have htoken : s.owner = t := hok.token hs
    have howner : sys.channel.owner = s.owner := (hok.inv hs).owned_iff.mp howned
    exact ⟨howner.trans htoken, htoken ▸ (hok.inv hs).token⟩
  · intro t s hs hterm
    exact ((hok.inv hs).terminal hterm).1

end Runs

end Firmingo
