/-
What the TCP server never does to lwIP.

The trace of every run is lawful, and this file reads off it what that means. The server calls
lwIP only on PCBs that are alive, of which there are at most two; a pbuf it has taken is freed
exactly once by the time its connection is cleared and is not touched afterwards, and one it
has refused is left alone; and no session is polled while another one is left whose PCB is
gone. The bytes of a PCB go to one session, in order, and are credited to that PCB alone.
-/
import Firmingo.TcpServer
import Firmingo.Backends

set_option autoImplicit false

open Octets

namespace Firmingo.Tcp

/-! ## Events about a pbuf and about the bytes of a PCB -/

namespace Event

/-- The pbuf with a handle is given to `receive`; it is freed; it is read or freed. -/
def gives (h : ℕ) : Event → Bool
  | .receiving _ (some b) => b.handle = h
  | _ => false

def frees (h : ℕ) : Event → Bool
  | .freed b => b.handle = h
  | _ => false

def uses (h : ℕ) : Event → Bool
  | .looked b | .freed b | .handed _ _ b _ => b.handle = h
  | _ => false

/-- The bytes of a pbuf that `receive` has taken on a PCB; the bytes handed to a session on
behalf of a PCB; and the credit given for a PCB. -/
def takes (p : Pcb) : Event → List Byte
  | .returned q _ (some b) .ok => if q = p then b.bytes else []
  | _ => []

def hands (p : Pcb) : Event → List Byte
  | .handed q _ _ bytes => if q = p then bytes else []
  | _ => []

def credits (p : Pcb) : Event → ℕ
  | .called q (.recved count) => if q = p then count else 0
  | _ => 0

/-- A session is made for a PCB. -/
def serves (p : Pcb) : Event → Bool
  | .constructed _ _ pcb => pcb = some p
  | _ => false

/-- `tcp_close` is called on a PCB. -/
def asks (p : Pcb) : Event → Bool
  | .called q (.close _) => q = p
  | _ => false

end Event

variable {l pre mid : List Event} {p q : Pcb} {k : Slot} {h : ℕ}

theorem call_bytes (v : Account) (c : Call) :
    (v.call c).taken = v.taken ∧ (v.call c).handed = v.handed := by
  cases c with
  | close answer => cases answer <;> exact ⟨rfl, rfl⟩
  | _ => exact ⟨rfl, rfl⟩

theorem returned_fields (v : Account) (q : Pcb) (j : Slot) (packet : Option Pbuf) (answer : Err) :
    (v.after (.returned q j packet answer)).handed = v.handed ∧
      (v.after (.returned q j packet answer)).credit = v.credit ∧
      (v.after (.returned q j packet answer)).asked = v.asked := by
  cases packet with
  | none => exact ⟨rfl, rfl, rfl⟩
  | some b => cases answer <;> exact ⟨rfl, rfl, rfl⟩

/-- The bytes received on a PCB, in terms of the events. -/
theorem taken_eq (l : List Event) (p : Pcb) : (account l p).taken = l.flatMap (Event.takes p) := by
  refine Ledgers.account_flatMap Account.taken (Event.takes p) rfl (fun v e he => ?_) (fun e he => ?_) l
  · cases e with
    | returned q j packet answer =>
      obtain rfl := Option.some.inj he
      cases packet with
      | none => exact (List.append_nil _).symm
      | some b =>
        cases answer with
        | ok => exact congrArg (v.taken ++ ·) (if_pos rfl).symm
        | _ => exact (List.append_nil _).symm
    | called q c => exact (call_bytes v c).1.trans (List.append_nil _).symm
    | _ => exact (List.append_nil _).symm
  · cases e with
    | returned q j packet answer =>
      have hq : q ≠ p := fun heq => he (congrArg some heq)
      cases packet with
      | none => rfl
      | some b =>
        cases answer with
        | ok => exact if_neg hq
        | _ => rfl
    | _ => rfl

/-- The bytes handed over on behalf of a PCB, in terms of the events. -/
theorem handed_eq (l : List Event) (p : Pcb) : (account l p).handed = l.flatMap (Event.hands p) := by
  refine Ledgers.account_flatMap Account.handed (Event.hands p) rfl (fun v e he => ?_) (fun e he => ?_) l
  · cases e with
    | handed q j b bytes =>
      obtain rfl := Option.some.inj he
      exact congrArg (v.handed ++ ·) (if_pos rfl).symm
    | called q c => exact (call_bytes v c).2.trans (List.append_nil _).symm
    | returned q j packet answer =>
      exact (returned_fields v q j packet answer).1.trans (List.append_nil _).symm
    | _ => exact (List.append_nil _).symm
  · cases e with
    | handed q j b bytes => exact if_neg fun heq => he (congrArg some heq)
    | _ => rfl

/-- The credit of a PCB, in terms of the events. -/
theorem credit_eq (l : List Event) (p : Pcb) : (account l p).credit = (l.map (Event.credits p)).sum := by
  refine Ledgers.account_sum Account.credit (Event.credits p) rfl (fun v e he => ?_) (fun e he => ?_) l
  · cases e with
    | called q c =>
      obtain rfl := Option.some.inj he
      cases c with
      | recved count => exact congrArg (v.credit + ·) (if_pos rfl).symm
      | close answer => cases answer <;> rfl
      | _ => rfl
    | returned q j packet answer => exact (returned_fields v q j packet answer).2.1
    | _ => rfl
  · cases e with
    | called q c =>
      cases c with
      | recved count => exact if_neg fun heq => he (congrArg some heq)
      | _ => rfl
    | _ => rfl

/-- `tcp_close` was called on a PCB, in terms of the events. -/
theorem asked_eq (l : List Event) (p : Pcb) : (account l p).asked = l.any (Event.asks p) := by
  refine Ledgers.account_any Account.asked (Event.asks p) rfl (fun v e he => ?_) (fun e he => ?_) l
  · cases e with
    | called q c =>
      obtain rfl := Option.some.inj he
      cases c with
      | close answer =>
        have hself : Event.asks q (.called q (.close answer)) = true := decide_eq_true rfl
        rw [hself, Bool.or_true]
        cases answer <;> rfl
      | _ => exact (Bool.or_false _).symm
    | returned q j packet answer =>
      exact (returned_fields v q j packet answer).2.2.trans (Bool.or_false _).symm
    | _ => exact (Bool.or_false _).symm
  · cases e with
    | called q c =>
      cases c with
      | close answer => exact decide_eq_false fun heq => he (congrArg some heq)
      | _ => rfl
    | _ => rfl

/-- A session was made for a PCB, in terms of the events. -/
theorem served_eq (l : List Event) (p : Pcb) : (account l p).served = l.any (Event.serves p) := by
  refine Ledgers.account_any Account.served (Event.serves p) rfl (fun v e he => ?_) (fun e he => ?_) l
  · cases e with
    | constructed n k pcb =>
      have hself : Event.serves p (.constructed n k pcb) = true := decide_eq_true he
      rw [hself, Bool.or_true]
      rfl
    | called q c =>
      have hsame : (v.call c).served = v.served := by
        cases c with
        | close answer => cases answer <;> rfl
        | _ => rfl
      exact hsame.trans (Bool.or_false _).symm
    | returned q j packet answer =>
      have hsame : (v.after (.returned q j packet answer)).served = v.served := by
        cases packet with
        | none => rfl
        | some b => cases answer <;> rfl
      exact hsame.trans (Bool.or_false _).symm
    | _ => exact (Bool.or_false _).symm
  · cases e with
    | constructed n k pcb => exact decide_eq_false he
    | _ => rfl

/-! ## PCBs -/

/-- What an event may make of a PCB's life. -/
theorem life_after {v : Account} {e : Event} (hlive : (v.after e).life = .live) :
    v.life = .live ∨ ∃ p k, e = .accepted p k := by
  cases e with
  | accepted p k => exact .inr ⟨p, k, rfl⟩
  | called p c =>
    left
    cases c with
    | abort => cases hlive
    | close answer => cases answer <;> first | exact hlive | cases hlive
    | _ => exact hlive
  | returned p k packet answer =>
    left
    cases packet with
    | none => exact hlive
    | some b => cases answer <;> exact hlive
  | offered p => cases hlive
  | failed p => cases hlive
  | _ => exact .inl hlive

theorem slot_after (v : Account) {e : Event} (he : ∀ p k, e ≠ .accepted p k) :
    (v.after e).slot = v.slot := by
  cases e with
  | accepted p k => exact absurd rfl (he p k)
  | called p c =>
    cases c with
    | close answer => cases answer <;> rfl
    | _ => rfl
  | returned p k packet answer =>
    cases packet with
    | none => rfl
    | some b => cases answer <;> rfl
  | _ => rfl

/-- A PCB that is alive was accepted into a slot. -/
theorem live_accepted (l : List Event) :
    ∀ p, (account l p).life = .live → ∃ k, (account l p).slot = some k ∧ Event.accepted p k ∈ l := by
  induction l using List.reverseRecOn with
  | nil => exact fun p hlive => by cases hlive
  | append_singleton l e ih =>
    intro p hlive
    rw [account_concat] at hlive ⊢
    split at hlive
    next he =>
      rw [if_pos he]
      rcases life_after hlive with hbefore | ⟨q, k, rfl⟩
      · by_cases hacc : ∃ q k, e = .accepted q k
        · obtain ⟨q, k, rfl⟩ := hacc
          obtain rfl := Option.some.inj he
          exact ⟨k, rfl, by simp⟩
        · obtain ⟨k, hslot, hmem⟩ := ih p hbefore
          refine ⟨k, ?_, List.mem_append_left _ hmem⟩
          rw [slot_after _ fun q j heq => hacc ⟨q, j, heq⟩]
          exact hslot
      · obtain rfl := Option.some.inj he
        exact ⟨k, rfl, by simp⟩
    next he =>
      rw [if_neg he]
      obtain ⟨k, hslot, hmem⟩ := ih p hlive
      exact ⟨k, hslot, List.mem_append_left _ hmem⟩

/-- No two PCBs that are alive are in one slot. -/
theorem live_slots (hl : Lawful l) :
    ∀ p q, (account l p).life = .live → (account l q).life = .live →
      (account l p).slot = (account l q).slot → p = q := by
  refine Ledgers.Lawful.induct hl (fun p q hlive => by cases hlive) ?_
  intro l e _ he ih p q hp hq hslot
  by_cases hacc : ∃ r k, e = .accepted r k
  · obtain ⟨r, k, rfl⟩ := hacc
    obtain ⟨-, hfree⟩ := he
    -- whoever is in slot `k` now is the PCB that was just accepted
    have hnew : ∀ x, (account (l ++ [Event.accepted r k]) x).life = .live → x ≠ r →
        account (l ++ [Event.accepted r k]) x = account l x ∧ (account l x).slot ≠ some k := by
      intro x hx hne
      have hsame : account (l ++ [Event.accepted r k]) x = account l x :=
        (account_concat ..).trans (if_neg fun heq => hne (Option.some.inj heq).symm)
      rw [hsame] at hx
      exact ⟨hsame, hfree x hx⟩
    have hr : (account (l ++ [Event.accepted r k]) r).slot = some k := by
      rw [account_concat, if_pos (by rfl)]
      rfl
    by_cases hpr : p = r
    · by_cases hqr : q = r
      · exact hpr.trans hqr.symm
      · obtain ⟨hsame, hne⟩ := hnew q hq hqr
        rw [hpr, hr, hsame] at hslot
        exact absurd hslot.symm hne
    · obtain ⟨hsame, hne⟩ := hnew p hp hpr
      by_cases hqr : q = r
      · rw [hqr, hr, hsame] at hslot
        exact absurd hslot hne
      · obtain ⟨hsame', -⟩ := hnew q hq hqr
        rw [hsame] at hp hslot
        rw [hsame'] at hq hslot
        exact ih p q hp hq hslot
  · have hkeep : ∀ x, (account (l ++ [e]) x).life = .live →
        (account l x).life = .live ∧ (account (l ++ [e]) x).slot = (account l x).slot := by
      intro x hx
      rw [account_concat] at hx ⊢
      split at hx
      next hkey =>
        rw [if_pos hkey]
        exact ⟨(life_after hx).resolve_right hacc, slot_after _ fun r k heq => hacc ⟨r, k, heq⟩⟩
      next hkey =>
        rw [if_neg hkey]
        exact ⟨hx, rfl⟩
    obtain ⟨hp', hslotp⟩ := hkeep p hp
    obtain ⟨hq', hslotq⟩ := hkeep q hq
    exact ih p q hp' hq' (hslotp.symm.trans (hslot.trans hslotq))

/-- **At most two PCBs are alive.** -/
theorem live_card (hl : Lawful l) (s : Finset Pcb) (hs : ∀ p ∈ s, (account l p).life = .live) :
    s.card ≤ 2 := by
  have hinj : Set.InjOn (fun p => (account l p).slot) s := by
    intro p hp q hq heq
    exact live_slots hl p q (hs p hp) (hs q hq) heq
  have hsub : s.image (fun p => (account l p).slot) ⊆ Finset.univ.image some := by
    intro x hx
    obtain ⟨p, hp, rfl⟩ := Finset.mem_image.mp hx
    obtain ⟨k, hk, -⟩ := live_accepted l p (hs p hp)
    rw [hk]
    exact Finset.mem_image_of_mem _ (Finset.mem_univ k)
  calc s.card = (s.image fun p => (account l p).slot).card := (Finset.card_image_of_injOn hinj).symm
    _ ≤ (Finset.univ.image (some : Slot → Option Slot)).card := Finset.card_le_card hsub
    _ = 2 := by decide

/-! ## Pbufs -/

/-- How the custody of a pbuf moves, and whether the event gives it to `receive`, uses it or
frees it. -/
inductive Moves : Custody → Custody → Bool → Bool → Bool → Prop
  | idle (v : Custody) : Moves v v false false false
  | given : Moves .stack .callback true false false
  | taken (p : Pcb) (k : Slot) : Moves .callback (.server p k) false false false
  | refused : Moves .callback .stack false false false
  | read {v : Custody} : v ≠ .stack → v ≠ .freed → Moves v v false true false
  | freed {v : Custody} : v ≠ .stack → v ≠ .freed → Moves v .freed false true true

/-- Who may read or free a pbuf. -/
theorem owner_ne {v : Custody} (hv : v = .callback ∨ ∃ p k, v = .server p k) :
    v ≠ .stack ∧ v ≠ .freed := by
  rcases hv with rfl | ⟨p, k, rfl⟩ <;> exact ⟨nofun, nofun⟩

/-- An event about another pbuf, or about none, does nothing to this one. -/
theorem Event.untouched {e : Event} {h : ℕ} (hother : e.pbuf ≠ some h) :
    e.gives h = false ∧ e.uses h = false ∧ e.frees h = false := by
  have hne : ∀ {b : Pbuf}, e.pbuf = some b.handle → decide (b.handle = h) = false :=
    fun heq => decide_eq_false fun hb => hother (by rw [heq, hb])
  cases e with
  | receiving p packet =>
    cases packet with
    | none => exact ⟨rfl, rfl, rfl⟩
    | some b => exact ⟨hne rfl, rfl, rfl⟩
  | looked b => exact ⟨rfl, hne rfl, rfl⟩
  | freed b => exact ⟨rfl, hne rfl, hne rfl⟩
  | handed p k b bytes => exact ⟨rfl, hne rfl, rfl⟩
  | _ => exact ⟨rfl, rfl, rfl⟩

/-- **What an allowed event does to a pbuf.** -/
theorem custody_moves {e : Event} (he : allowed l e) (h : ℕ) :
    Moves (custody l h) (custody (l ++ [e]) h) (e.gives h) (e.uses h) (e.frees h) := by
  have hself : ∀ b : Pbuf, decide (b.handle = b.handle) = true := fun _ => decide_eq_true rfl
  rw [custody_concat]
  split
  · next hkey =>
    cases e with
    | receiving p packet =>
      obtain ⟨b, rfl, rfl⟩ := Option.map_eq_some_iff.mp hkey
      rw [he.2 b rfl, Event.gives, hself]
      exact .given
    | returned p k packet answer =>
      obtain ⟨b, rfl, rfl⟩ := Option.map_eq_some_iff.mp hkey
      -- the answer decides: taken with `.ok`, back to the stack with `.mem`
      rcases he.2 with ⟨rfl, -, -⟩ | ⟨rfl | rfl, -, b', hb', hcustody⟩
      · exact .idle _
      · obtain rfl := Option.some.inj hb'
        rw [hcustody]
        exact .taken p k
      · obtain rfl := Option.some.inj hb'
        rw [hcustody]
        exact .refused
    | looked b =>
      obtain rfl := Option.some.inj hkey
      obtain ⟨hstack, hfreed⟩ := owner_ne he
      rw [Event.uses, hself]
      exact .read hstack hfreed
    | freed b =>
      obtain rfl := Option.some.inj hkey
      obtain ⟨hstack, hfreed⟩ := owner_ne he
      rw [Event.uses, Event.frees, hself]
      exact .freed hstack hfreed
    | handed p k b bytes =>
      obtain rfl := Option.some.inj hkey
      obtain ⟨hstack, hfreed⟩ := owner_ne (.inr ⟨p, k, he.2.1⟩)
      rw [Event.uses, hself]
      exact .read hstack hfreed
    | _ => cases hkey
  · next hother =>
    obtain ⟨hgives, huses, hfrees⟩ := Event.untouched hother
    rw [hgives, huses, hfrees]
    exact .idle _

/-- A pbuf that was freed is not used any more. -/
theorem freed_final (hl : Lawful (l ++ mid)) (hfreed : custody l h = .freed) :
    custody (l ++ mid) h = .freed ∧ ∀ e ∈ mid, e.uses h = false := by
  refine Ledgers.Lawful.extend hl ⟨by rwa [List.append_nil], nofun⟩ ?_
  rintro m e - he ⟨hm, huses⟩
  have hmoves := custody_moves he h
  rw [hm] at hmoves
  rw [← List.append_assoc]
  have hlast : custody (l ++ m ++ [e]) h = .freed ∧ e.uses h = false := by
    generalize custody (l ++ m ++ [e]) h = v, e.gives h = g, e.uses h = u, e.frees h = f at hmoves
    cases hmoves with
    | idle => exact ⟨rfl, rfl⟩
    | read _ hne => exact absurd rfl hne
    | freed _ hne => exact absurd rfl hne
  refine ⟨hlast.1, fun x hx => ?_⟩
  rcases List.mem_append.mp hx with hx | hx
  · exact huses x hx
  · rw [List.mem_singleton.mp hx]
    exact hlast.2

/-- A pbuf that the server has taken stays its own until it is freed, which is at most once. -/
theorem taken_until_freed (hl : Lawful (l ++ mid)) (htaken : custody l h = .server p k) :
    (mid.countP (Event.frees h) = 0 ∧ custody (l ++ mid) h = .server p k) ∨
      (mid.countP (Event.frees h) = 1 ∧ custody (l ++ mid) h = .freed) := by
  refine Ledgers.Lawful.extend hl (.inl ⟨rfl, by rwa [List.append_nil]⟩) ?_
  intro m e _ he hm
  have hmoves := custody_moves he h
  rw [← List.append_assoc, List.countP_append, List.countP_singleton]
  rcases hm with ⟨hcount, hm⟩ | ⟨hcount, hm⟩
  · rw [hm] at hmoves
    rw [hcount]
    generalize custody (l ++ m ++ [e]) h = v, e.gives h = g, e.uses h = u, e.frees h = f at hmoves
    cases hmoves with
    | idle => exact .inl ⟨rfl, rfl⟩
    | read => exact .inl ⟨rfl, rfl⟩
    | freed => exact .inr ⟨rfl, rfl⟩
  · rw [hm] at hmoves
    rw [hcount]
    generalize custody (l ++ m ++ [e]) h = v, e.gives h = g, e.uses h = u, e.frees h = f at hmoves
    cases hmoves with
    | idle => exact .inr ⟨rfl, rfl⟩
    | read _ hne => exact absurd rfl hne
    | freed _ hne => exact absurd rfl hne

/-- A pbuf that lwIP owns is not used until it is given to `receive`. -/
theorem stack_untouched (hl : Lawful (l ++ mid)) (hstack : custody l h = .stack)
    (hgives : ∀ e ∈ mid, e.gives h = false) :
    custody (l ++ mid) h = .stack ∧ ∀ e ∈ mid, e.uses h = false := by
  refine Ledgers.Lawful.extend hl ⟨by rwa [List.append_nil], nofun⟩ ?_
  rintro m e hmem he ⟨hm, huses⟩
  have hmoves := custody_moves he h
  rw [hm, hgives e hmem] at hmoves
  rw [← List.append_assoc]
  have hlast : custody (l ++ m ++ [e]) h = .stack ∧ e.uses h = false := by
    generalize custody (l ++ m ++ [e]) h = v, e.uses h = u, e.frees h = f at hmoves
    cases hmoves with
    | idle => exact ⟨rfl, rfl⟩
    | read hne => exact absurd rfl hne
    | freed hne => exact absurd rfl hne
  refine ⟨hlast.1, fun x hx => ?_⟩
  rcases List.mem_append.mp hx with hx | hx
  · exact huses x hx
  · rw [List.mem_singleton.mp hx]
    exact hlast.2

/-- What was not freed yet was never freed. -/
theorem frees_of_custody (hl : Lawful l) (hne : custody l h ≠ .freed) : ∀ e ∈ l, e.frees h = false := by
  intro e hmem
  by_contra hfrees
  obtain ⟨pre, post, rfl⟩ := List.append_of_mem hmem
  have hsplit : pre ++ e :: post = pre ++ [e] ++ post := by simp
  rw [hsplit] at hl hne
  have hmoves := custody_moves ((Ledgers.lawful_concat.mp (hl.of_prefix (List.prefix_append _ _))).2) h
  rw [Bool.eq_true_of_not_eq_false hfrees] at hmoves
  refine hne (freed_final hl ?_).1
  generalize custody (pre ++ [e]) h = v, custody pre h = w, e.gives h = g, e.uses h = u at hmoves
  cases hmoves with
  | freed => rfl

/-! ## Sessions -/

/-- At most one session is made for a PCB. -/
theorem constructed_once (hl : Lawful l) {pre pre' : List Event} {n n' : ℕ} {k k' : Slot}
    (h : pre ++ [Event.constructed n k (some p)] <+: l)
    (h' : pre' ++ [Event.constructed n' k' (some p)] <+: l) : pre = pre' := by
  have hnever : ∀ {a b : List Event} {m m' : ℕ} {j j' : Slot},
      a ++ [Event.constructed m j (some p)] <+: l → b ++ [Event.constructed m' j' (some p)] <+: l →
      a.length < b.length → False := by
    intro a b m m' j j' ha hb hlt
    obtain ⟨-, -, q, hq, -, -, hserved⟩ := hl _ _ hb
    obtain rfl := Option.some.inj hq
    have hab : a ++ [Event.constructed m j (some p)] <+: b := by
      refine List.prefix_of_prefix_length_le ha ((List.prefix_append _ _).trans hb) ?_
      rw [List.length_append, List.length_singleton]
      exact hlt
    obtain ⟨rest, rfl⟩ := hab
    rw [served_eq, List.any_append, List.any_append] at hserved
    simp [Event.serves] at hserved
  rcases Nat.lt_trichotomy pre.length pre'.length with hlt | heq | hlt
  · exact (hnever h h' hlt).elim
  · have hpre := List.prefix_of_prefix_length_le ((List.prefix_append _ _).trans h)
      ((List.prefix_append _ _).trans h') heq.le
    exact hpre.eq_of_length heq
  · exact (hnever h' h hlt).elim

/-! ## Whole runs -/

variable {β υ ο : Type}

/-- What the server keeps to in its dealings with lwIP. -/
structure Orderly (srv : TcpSessionServer β υ) : Prop where
  /-- A call is on a PCB that is alive, or is one that `accept` makes on the PCB it was given. -/
  calls : ∀ pre p c, pre ++ [Event.called p c] <+: srv.trace →
    (account pre p).life = .live ∨ Given pre p
  /-- At most two PCBs are alive, at any time. -/
  two : ∀ pre, pre <+: srv.trace → ∀ s : Finset Pcb, (∀ p ∈ s, (account pre p).life = .live) →
    s.card ≤ 2
  /-- A pbuf that was taken is freed once by the time its connection is cleared. -/
  freed : ∀ pre p k b mid,
    pre ++ [Event.returned p k (some b) .ok] ++ mid ++ [Event.cleared k] <+: srv.trace →
    mid.countP (Event.frees b.handle) = 1
  /-- It is neither read nor freed after that. -/
  final : ∀ pre b mid, pre ++ [Event.freed b] ++ mid <+: srv.trace →
    ∀ e ∈ mid, e.uses b.handle = false
  /-- A pbuf that was refused was not freed, and is not used until it is given again. -/
  refused : ∀ pre p k b mid, pre ++ [Event.returned p k (some b) .mem] ++ mid <+: srv.trace →
    (∀ e ∈ pre, e.frees b.handle = false) ∧
      ((∀ e ∈ mid, e.gives b.handle = false) → ∀ e ∈ mid, e.uses b.handle = false)
  /-- Nor is it kept. -/
  unkept : ∀ pre p k b mid, pre ++ [Event.returned p k (some b) .mem] ++ mid = srv.trace →
    (∀ e ∈ mid, e.gives b.handle = false) →
    ∀ j x, (srv.connections j).packet = some x → x.handle ≠ b.handle
  /-- `receive`, called on a PCB that is alive, returns `ERR_ABRT` if and only if it has aborted
  it. -/
  aborts : ∀ pre p k packet answer, pre ++ [Event.returned p k packet answer] <+: srv.trace →
    ∃ before during, pre = before ++ [Event.receiving p packet] ++ during ∧
      (∀ q x, Event.receiving q x ∉ during) ∧ (account before p).life = .live ∧
      (answer = .abrt ↔ .called p .abort ∈ during)
  /-- When a session is polled, every session has its PCB. -/
  polls : ∀ pre k, pre ++ [Event.polled k] <+: srv.trace → ∀ j n pcb, tenant pre j = some (n, pcb) →
    ∃ p, pcb = some p ∧ (account pre p).life = .live

/-- The invariant at the end of a run speaks for each moment before it. -/
theorem orderly_of_ok [StreamBackend β] [UploadService υ] {srv : TcpSessionServer β υ} (h : srv.Ok) :
    Orderly srv := by
  have hl : Lawful srv.trace := h.lawful
  refine ⟨fun pre p c hpre => hl _ _ hpre, fun pre hpre s hs => live_card (hl.of_prefix hpre) s hs,
    ?_, ?_, ?_, ?_, ?_, ?_⟩
  · intro pre p k b mid hpre
    have hclear := hl _ _ hpre
    have hmid := hl.of_prefix ((List.prefix_append _ _).trans hpre)
    have htaken : custody (pre ++ [Event.returned p k (some b) .ok]) b.handle = .server p k := by
      rw [custody_concat, if_pos (by rfl)]
      rfl
    -- a slot is cleared only when it holds no pbuf, so the pbuf was freed on the way
    rcases taken_until_freed hmid htaken with ⟨-, hkept⟩ | ⟨hcount, -⟩
    · exact absurd hkept (hclear.2.1 b.handle p)
    · exact hcount
  · intro pre b mid hpre
    have hmid := hl.of_prefix hpre
    refine (freed_final hmid ?_).2
    rw [custody_concat, if_pos (by rfl)]
    rfl
  · intro pre p k b mid hpre
    have hmid := hl.of_prefix hpre
    have hreturned := hl _ _ ((List.prefix_append _ _).trans hpre)
    have hcustody : custody pre b.handle = .callback := by
      rcases hreturned.2 with ⟨hno, -⟩ | ⟨-, -, b', hb', hcustody⟩
      · cases hno
      · obtain rfl := Option.some.inj hb'
        exact hcustody
    refine ⟨frees_of_custody (hl.of_prefix ?_) (by rw [hcustody]; exact nofun), fun hgives => ?_⟩
    · exact (List.prefix_append _ _).trans ((List.prefix_append _ _).trans hpre)
    · refine (stack_untouched hmid ?_ hgives).2
      rw [custody_concat, if_pos (by rfl)]
      rfl
  · intro pre p k b mid hpre hgives j x hx heq
    obtain ⟨q, hcustody, -⟩ := (h.slots j).packet x hx
    have hstack : custody (pre ++ [Event.returned p k (some b) .mem]) b.handle = .stack := by
      rw [custody_concat, if_pos (by rfl)]
      rfl
    have hlast := (stack_untouched (by rw [hpre]; exact hl) hstack hgives).1
    rw [hpre, ← heq, hcustody] at hlast
    cases hlast
  · intro pre p k packet answer hpre
    obtain ⟨⟨before, during, rfl, hnone, hiff⟩, -⟩ := hl _ _ hpre
    refine ⟨before, during, rfl, hnone, ?_, hiff⟩
    refine (hl before (.receiving p packet) ?_).1
    exact (List.prefix_append _ during).trans ((List.prefix_append _ _).trans hpre)
  · intro pre k hpre j n pcb htenant
    obtain ⟨p, hp, hlive, -⟩ := (hl _ _ hpre).2 j n pcb htenant
    exact ⟨p, hp, hlive⟩

/-- **The server keeps its handles in order**, whatever lwIP calls back and answers, and
whenever it does. -/
theorem handles_in_order [StreamBackend β] [UploadService υ] (service : υ → ο → υ) (b : β) (u : υ)
    (has_upload : Bool) (ops : List (TcpSessionServer.Op β ο)) :
    Orderly (TcpSessionServer.after service b u has_upload ops) :=
  orderly_of_ok (TcpSessionServer.ok_after service b u has_upload ops)

/-- What is true of the bytes of a PCB, in the trace of a run. -/
structure OwnBytes (l : List Event) (p : Pcb) : Prop where
  /-- What sessions were handed is what was received, in order. -/
  handed : l.flatMap (Event.hands p) <+: l.flatMap (Event.takes p)
  /-- It comes from pbufs that were received on this PCB, and goes to the session that was made
  for it. -/
  source : ∀ pre k b bytes, pre ++ [Event.handed p k b bytes] <+: l →
    custody pre b.handle = .server p k ∧ ∃ n, tenant pre k = some (n, some p)
  /-- There is one such session, made after the PCB was accepted into the slot. -/
  session : ∀ pre n k, pre ++ [Event.constructed n k (some p)] <+: l →
    .accepted p k ∈ pre ∧ ∀ pre' n' k', pre' ++ [Event.constructed n' k' (some p)] <+: l → pre' = pre
  /-- The credit is for what was handed over and, once `tcp_close` was called, for the rest. -/
  credit : (l.map (Event.credits p)).sum =
    if l.any (Event.asks p) then (l.flatMap (Event.takes p)).length
    else (l.flatMap (Event.hands p)).length
  bounded : (l.map (Event.credits p)).sum ≤ (l.flatMap (Event.takes p)).length

/-- **The bytes and the credit of a connection stay with its socket.** -/
theorem bytes_stay_with_socket [StreamBackend β] [UploadService υ] (service : υ → ο → υ) (b : β)
    (u : υ) (has_upload : Bool) (ops : List (TcpSessionServer.Op β ο)) (p : Pcb) :
    OwnBytes (TcpSessionServer.after service b u has_upload ops).trace p := by
  have h := TcpSessionServer.ok_after service b u has_upload ops
  have hl : Lawful (TcpSessionServer.after service b u has_upload ops).trace := h.lawful
  have hfair := h.fair p
  have hcredit := hfair.credit
  rw [credit_eq, taken_eq, handed_eq, asked_eq] at hcredit
  have hhanded := hfair.handed
  rw [taken_eq, handed_eq] at hhanded
  refine ⟨hhanded, ?_, ?_, hcredit, ?_⟩
  · intro pre k x bytes hpre
    obtain ⟨-, hcustody, hmade⟩ := hl _ _ hpre
    exact ⟨hcustody, hmade⟩
  · intro pre n k hpre
    obtain ⟨-, -, q, hq, hlive, hslot, -⟩ := hl _ _ hpre
    obtain rfl := Option.some.inj hq
    obtain ⟨k', hk', hmem⟩ := live_accepted pre p hlive
    obtain rfl := Option.some.inj (hslot.symm.trans hk')
    exact ⟨hmem, fun pre' n' k' hpre' => constructed_once hl hpre' hpre⟩
  · rw [hcredit]
    split
    · exact le_rfl
    · exact hhanded.length_le

/-- A pbuf with forty bytes that start no frame. -/
def stray_pbuf : Pbuf := ⟨5, List.replicate 40 0, by decide⟩

/-- A connection whose first frame is bad, and whose `tcp_close` fails for want of memory until
the connection is aborted. -/
def stray_run : List (TcpSessionServer.Op ApplicationEndpoint Unit) :=
  [.begin System.sample_identity true true true true, .callback (.accept (some 7) .ok 0),
    .callback (.receive 7 (some stray_pbuf) .ok),
    .poll 0 none [] (fun _ => ⟨1000, .ok, .mem⟩), .poll 1000 none [] (fun _ => ⟨1000, .ok, .mem⟩)]

def stray_trace : List Event :=
  (TcpSessionServer.after (fun u _ => u) ({} : ApplicationEndpoint) NoUpload.mk false stray_run).trace

/-- The rest is credited although the connection is never closed gracefully: sixteen bytes were
handed over and forty are credited, and the PCB ends by `tcp_abort`. -/
theorem rest_credited_then_aborted :
    (stray_trace.flatMap (Event.hands 7)).length = 16 ∧ (stray_trace.map (Event.credits 7)).sum = 40 ∧
      .called 7 (.close .ok) ∉ stray_trace ∧ .called 7 .abort ∈ stray_trace := by
  decide +kernel

end Firmingo.Tcp
