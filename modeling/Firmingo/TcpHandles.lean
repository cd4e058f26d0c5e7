/-
The handles of the TCP server.

The trace of a server is lawful: every call on a PCB is on one that is alive (or is the one an
`accept` was just given), every use of a pbuf is by its owner, and a session is polled only
when no session is left whose PCB is gone. The invariant behind it ties each slot to the
accounts of its PCB, its pbuf and its session; an action of the server touches the handles of
one slot, so `Inv.update` carries everything else over.
-/
import Firmingo.TcpSession

set_option autoImplicit false

open Octets

namespace Firmingo.Tcp

variable {l : List Event} {p q : Pcb} {k j : Slot}

/-! ## The law -/

/-- The `accept` that was given a PCB is running: since then, there were only calls on it. -/
def Given (l : List Event) (p : Pcb) : Prop :=
  ∃ pre cs, l = pre ++ [Event.offered p] ++ List.map (Event.called p) cs

/-- The `receive` that was given a PCB is running, and whether it has aborted the PCB. -/
def Within (l : List Event) (p : Pcb) (packet : Option Pbuf) (aborted : Prop) : Prop :=
  ∃ pre body, l = pre ++ [Event.receiving p packet] ++ body ∧
    (∀ q x, Event.receiving q x ∉ body) ∧ (aborted ↔ .called p .abort ∈ body)

/-- What may happen after a trace. -/
def allowed (l : List Event) : Event → Prop
  | .offered p => (account l p).life = .unknown
  | .accepted p k =>
    (account l p).life = .offered ∧ ∀ q, (account l q).life = .live → (account l q).slot ≠ some k
  | .called p _ => (account l p).life = .live ∨ Given l p
  | .failed p => (account l p).life = .live
  | .receiving p packet =>
    (account l p).life = .live ∧ ∀ b ∈ packet, custody l b.handle = .stack
  | .returned p _ packet answer =>
    Within l p packet (answer = .abrt) ∧
      ((answer = .abrt ∧ (account l p).life = .gone ∧ ∀ b ∈ packet, custody l b.handle = .freed) ∨
        ((answer = .ok ∨ answer = .mem) ∧ (account l p).life = .live ∧
          ∃ b, packet = some b ∧ custody l b.handle = .callback))
  | .looked b | .freed b =>
    custody l b.handle = .callback ∨ ∃ p k, custody l b.handle = .server p k
  | .handed p k b _ =>
    (account l p).life = .live ∧ custody l b.handle = .server p k ∧
      ∃ n, tenant l k = some (n, some p)
  | .constructed n k pcb =>
    n = constructions l ∧ tenant l k = none ∧
      ∃ p, pcb = some p ∧ (account l p).life = .live ∧ (account l p).slot = some k ∧
        (account l p).served = false
  | .polled k =>
    (tenant l k).isSome ∧ ∀ j n pcb, tenant l j = some (n, pcb) →
      ∃ p, pcb = some p ∧ (account l p).life = .live ∧ (account l p).slot = some j
  | .destroyed k => (tenant l k).isSome
  | .cleared k =>
    tenant l k = none ∧ (∀ b p, custody l b ≠ .server p k) ∧
      ∀ p, (account l p).life = .live → (account l p).slot ≠ some k

/-- A trace all of whose events were allowed. -/
abbrev Lawful (l : List Event) : Prop := Ledgers.Lawful allowed l

theorem account_concat (l : List Event) (e : Event) (p : Pcb) :
    account (l ++ [e]) p = if e.pcb = some p then (account l p).after e else account l p :=
  Ledgers.account_concat ..

theorem custody_concat (l : List Event) (e : Event) (b : ℕ) :
    custody (l ++ [e]) b = if e.pbuf = some b then (custody l b).after e else custody l b :=
  Ledgers.account_concat ..

theorem tenant_concat (l : List Event) (e : Event) (k : Slot) :
    tenant (l ++ [e]) k = if e.slot = some k then tenant_after (tenant l k) e else tenant l k :=
  Ledgers.account_concat ..

/-- An event about no PCB, no pbuf or no slot leaves all accounts of that kind alone. -/
theorem account_other {e : Event} (h : e.pcb = none) (l : List Event) (p : Pcb) :
    account (l ++ [e]) p = account l p := by
  rw [account_concat, h, if_neg (Option.some_ne_none p).symm]

theorem custody_other {e : Event} (h : e.pbuf = none) (l : List Event) (b : ℕ) :
    custody (l ++ [e]) b = custody l b := by
  rw [custody_concat, h, if_neg (Option.some_ne_none b).symm]

theorem tenant_other {e : Event} (h : e.slot = none) (l : List Event) (k : Slot) :
    tenant (l ++ [e]) k = tenant l k := by
  rw [tenant_concat, h, if_neg (Option.some_ne_none k).symm]

theorem lawful_concat {e : Event} : Lawful (l ++ [e]) ↔ Lawful l ∧ allowed l e :=
  Ledgers.lawful_concat

/-! ## The invariant -/

/-- The callbacks of a slot are set on a PCB that is alive. -/
structure Attached (v : Account) (k : Slot) : Prop where
  life : v.life = .live
  slot : v.slot = some k
  arg : v.arg = some k
  recv : v.recv = true
  err : v.err = true
  sent : v.sent = true

/-- Nothing was received on a PCB yet. -/
structure Blank (v : Account) : Prop where
  taken : v.taken = []
  handed : v.handed = []
  credit : v.credit = 0
  asked : v.asked = false
  served : v.served = false

/-- The credit follows the bytes that were handed over, until `tcp_close` gives up the rest. -/
structure Fair (v : Account) : Prop where
  handed : v.handed <+: v.taken
  credit : v.credit = if v.asked then v.taken.length else v.handed.length

/-- The bytes of a connection's pbuf that were not read. -/
def Connection.rest (c : Connection) : List Byte :=
  c.packet.elim [] fun b => b.bytes.drop c.offset

/-- A PCB that its slot works for: the session in the slot, if any, was made for it, and what
was received on it is what was handed over and what is left. -/
structure Resident (l : List Event) (k : Slot) (c : Connection) (p : Pcb) : Prop where
  made : ∀ n pcb, tenant l k = some (n, pcb) → pcb = some p
  served : c.closing = false → tenant l k = none → (account l p).served = false
  rest : (account l p).asked = false → (account l p).taken = (account l p).handed ++ c.rest
  asked : (account l p).asked = true → c.closing = true ∧ c.packet = none

/-- One slot and its handles; `alive` tells whether it has a session. -/
structure SlotOk (l : List Event) (k : Slot) (c : Connection) (alive : Bool) : Prop where
  attached : ∀ p, c.pcb = some p → Attached (account l p) k
  server : ∀ p, c.pcb = some p → c.server = true
  empty : c.occupied = false →
    c.pcb = none ∧ c.packet = none ∧ alive = false ∧ c.closing = false ∧ c.replacing = false
  packet : ∀ b, c.packet = some b → ∃ q, custody l b.handle = .server q k ∧
    (c.replacing = false → ∀ p, c.pcb = some p → q = p)
  offset : ∀ b, c.packet = some b → c.offset ≤ b.tot_len
  unread : c.packet = none → c.offset = 0
  session : (tenant l k).isSome = alive
  resident : c.replacing = false → ∀ p, c.pcb = some p → Resident l k c p
  reserved : c.replacing = true → ∀ p, c.pcb = some p → Blank (account l p)
  retired : c.closing = true → c.replacing = false → alive = false

/-- The invariant of the server. -/
structure Inv (conn : Slot → Connection) (alive : Slot → Bool) (l : List Event) : Prop where
  lawful : Lawful l
  slots : ∀ k, SlotOk l k (conn k) (alive k)
  live : ∀ p, (account l p).life = .live → ∃ k, (account l p).slot = some k ∧ (conn k).pcb = some p
  kept : ∀ b q k, custody l b = .server q k → ∃ x, (conn k).packet = some x ∧ x.handle = b
  fair : ∀ p, Fair (account l p)
  fresh : ∀ p, (account l p).life = .unknown → account l p = {}

/-- The events between two traces are about one PCB, one pbuf and one slot at most. -/
structure Touches (l l' : List Event) (p : Option Pcb) (b : Option ℕ) (k : Slot) : Prop where
  account : ∀ q, p ≠ some q → account l' q = account l q
  custody : ∀ x, b ≠ some x → custody l' x = custody l x
  tenant : ∀ j, j ≠ k → tenant l' j = tenant l j

theorem Touches.refl (l : List Event) (k : Slot) : Touches l l none none k :=
  ⟨fun _ _ => rfl, fun _ _ => rfl, fun _ _ => rfl⟩

/-- Events about one PCB, one pbuf and one slot. -/
theorem touches_append {es : List Event} {p : Option Pcb} {b : Option ℕ}
    (h : ∀ e ∈ es, (e.pcb = none ∨ e.pcb = p) ∧ (e.pbuf = none ∨ e.pbuf = b) ∧
      (e.slot = none ∨ e.slot = some k)) :
    Touches l (l ++ es) p b k := by
  refine ⟨fun q hq => ?_, fun x hx => ?_, fun j hj => ?_⟩
  · refine Ledgers.account_append_of_ne fun e he hkey => ?_
    rcases (h e he).1 with hnone | hsome
    · rw [hnone] at hkey
      cases hkey
    · exact hq (hsome.symm.trans hkey)
  · refine Ledgers.account_append_of_ne fun e he hkey => ?_
    rcases (h e he).2.1 with hnone | hsome
    · rw [hnone] at hkey
      cases hkey
    · exact hx (hsome.symm.trans hkey)
  · refine Ledgers.account_append_of_ne fun e he hkey => ?_
    rcases (h e he).2.2 with hnone | hsome
    · rw [hnone] at hkey
      cases hkey
    · exact hj (Option.some.inj (hkey.symm.trans hsome))

/-- What is asked of the PCB that an action touches. -/
structure PcbStep (l l' : List Event) (k : Slot) (c' : Connection) (q : Pcb) : Prop where
  mine : (account l q).life = .live → (account l q).slot = some k
  live : (account l' q).life = .live → (account l' q).slot = some k ∧ c'.pcb = some q
  fair : Fair (account l' q)
  known : (account l' q).life ≠ .unknown

/-- What is asked of the pbuf that an action touches. -/
structure PbufStep (l l' : List Event) (k : Slot) (c' : Connection) (x : ℕ) : Prop where
  mine : ∀ q j, custody l x = .server q j → j = k
  kept : ∀ q j, custody l' x = .server q j → j = k ∧ ∃ y, c'.packet = some y ∧ y.handle = x

section Slot

variable {l' : List Event} {c c' : Connection} {a : Bool}

/-- A slot without a session has none in the trace. -/
theorem SlotOk.vacant (hs : SlotOk l k c a) (ha : a = false) : tenant l k = none := by
  have hsession := hs.session
  rw [ha, Option.isSome_eq_false_iff] at hsession
  exact Option.isNone_iff_eq_none.mp hsession

/-- A slot's part of the invariant is about its own PCB, its own pbuf and its own session. -/
theorem SlotOk.congr (hs : SlotOk l k c a) (haccount : ∀ q, c.pcb = some q → account l' q = account l q)
    (hcustody : ∀ b, c.packet = some b → custody l' b.handle = custody l b.handle)
    (htenant : tenant l' k = tenant l k) : SlotOk l' k c a := by
  refine ⟨?_, hs.server, hs.empty, ?_, hs.offset, hs.unread, ?_, ?_, ?_, hs.retired⟩
  · intro q hq
    rw [haccount q hq]
    exact hs.attached q hq
  · intro b hb
    rw [hcustody b hb]
    exact hs.packet b hb
  · rw [htenant]
    exact hs.session
  · intro hreplacing q hq
    obtain ⟨hmade, hserved, hrest, hasked⟩ := hs.resident hreplacing q hq
    refine ⟨?_, ?_, ?_, ?_⟩
    · rwa [htenant]
    · rwa [htenant, haccount q hq]
    · rwa [haccount q hq]
    · rwa [haccount q hq]
  · intro hreplacing q hq
    rw [haccount q hq]
    exact hs.reserved hreplacing q hq

/-- A PCB that stays in its slot. -/
theorem PcbStep.stays (h : Attached (account l p) k) (h' : Attached (account l' p) k) (hpcb : c.pcb = some p)
    (hfair : Fair (account l' p)) : PcbStep l l' k c p :=
  ⟨fun _ => h.slot, fun _ => ⟨h'.slot, hpcb⟩, hfair, by rw [h'.life]; exact nofun⟩

/-- A PCB that is gone. -/
theorem PcbStep.gone (h : Attached (account l p) k)
    (hgone : (account l' p).life = .gone ∧ Fair (account l' p)) : PcbStep l l' k c p :=
  ⟨fun _ => h.slot, fun hlive => absurd (hgone.1.symm.trans hlive) nofun, hgone.2,
    by rw [hgone.1]; exact nofun⟩

/-- The pbuf of a slot, once it is freed. -/
theorem SlotOk.freed (hs : SlotOk l k c a)
    (hfreed : ∀ b, c.packet = some b → custody l' b.handle = .freed) :
    ∀ x, c.packet.map Pbuf.handle = some x → PbufStep l l' k c' x := by
  intro x hx
  obtain ⟨b, hb, rfl⟩ := Option.map_eq_some_iff.mp hx
  obtain ⟨q, hcustody, -⟩ := hs.packet b hb
  refine ⟨fun q' j hj => ?_, fun q' j hj => ?_⟩
  · rw [hcustody] at hj
    cases hj
    rfl
  · rw [hfreed b hb] at hj
    cases hj

end Slot

/-- **The frame rule.** An action on one slot keeps the invariant, if it keeps that slot's part
of it and looks after the PCB and the pbuf it touches. -/
theorem Inv.update {conn : Slot → Connection} {alive : Slot → Bool} {l' : List Event}
    (h : Inv conn alive l) {c : Connection} {a : Bool} {p : Option Pcb} {b : Option ℕ}
    (htouch : Touches l l' p b k) (hlaw : Lawful l') (hslot : SlotOk l' k c a)
    (hp : ∀ q, p = some q → PcbStep l l' k c q)
    (hpcb : ∀ q, (conn k).pcb = some q → p = some q ∨ c.pcb = some q)
    (hb : ∀ x, b = some x → PbufStep l l' k c x)
    (hpacket : ∀ y, (conn k).packet = some y → b = some y.handle ∨ c.packet = some y) :
    Inv (Function.update conn k c) (Function.update alive k a) l' := by
  -- the PCB of another slot is not the one that is touched
  have hother : ∀ j q, j ≠ k → (conn j).pcb = some q → account l' q = account l q := by
    intro j q hj hq
    refine htouch.account q fun hpq => hj ?_
    have hattached := (h.slots j).attached q hq
    exact Option.some.inj (hattached.slot.symm.trans ((hp q hpq).mine hattached.life))
  refine ⟨hlaw, fun j => ?_, fun q hq => ?_, fun x q j hx => ?_, fun q => ?_, fun q hq => ?_⟩
  · by_cases hj : j = k
    · subst hj
      rw [Function.update_self, Function.update_self]
      exact hslot
    · rw [Function.update_of_ne hj, Function.update_of_ne hj]
      refine (h.slots j).congr (fun q hq => hother j q hj hq) (fun y hy => ?_) (htouch.tenant j hj)
      obtain ⟨q, hcustody, -⟩ := (h.slots j).packet y hy
      exact htouch.custody y.handle fun hby => hj ((hb _ hby).mine q j hcustody)
  · by_cases hpq : p = some q
    · obtain ⟨hk, hcq⟩ := (hp q hpq).live hq
      exact ⟨k, hk, by rw [Function.update_self]; exact hcq⟩
    · rw [htouch.account q hpq] at hq ⊢
      obtain ⟨j, hj, hconn⟩ := h.live q hq
      refine ⟨j, hj, ?_⟩
      by_cases hjk : j = k
      · subst hjk
        rw [Function.update_self]
        exact (hpcb q hconn).resolve_left hpq
      · rw [Function.update_of_ne hjk]
        exact hconn
  · by_cases hbx : b = some x
    · obtain ⟨rfl, y, hy, hyx⟩ := (hb x hbx).kept q j hx
      exact ⟨y, by rw [Function.update_self]; exact hy, hyx⟩
    · rw [htouch.custody x hbx] at hx
      obtain ⟨y, hy, hyx⟩ := h.kept x q j hx
      refine ⟨y, ?_, hyx⟩
      by_cases hjk : j = k
      · subst hjk
        rw [Function.update_self]
        exact (hpacket y hy).resolve_left fun hby => hbx (hby.trans (congrArg some hyx))
      · rw [Function.update_of_ne hjk]
        exact hy
  · by_cases hpq : p = some q
    · exact (hp q hpq).fair
    · rw [htouch.account q hpq]
      exact h.fair q
  · by_cases hpq : p = some q
    · exact absurd hq (hp q hpq).known
    · rw [htouch.account q hpq] at hq ⊢
      exact h.fresh q hq

/-! ## Batches of calls -/

/-- The calls that end a PCB. -/
def Call.ends : Call → Bool
  | .abort | .close .ok => true
  | _ => false

theorem life_call (v : Account) {c : Call} (h : c.ends = false) : (v.call c).life = v.life := by
  cases c with
  | abort => cases h
  | close answer => cases answer <;> first | rfl | cases h
  | _ => rfl

theorem account_called_self (l : List Event) (p : Pcb) (c : Call) :
    account (l ++ [Event.called p c]) p = (account l p).call c := by
  rw [account_concat, if_pos (by rfl)]
  rfl

theorem account_calls (l : List Event) (p : Pcb) (cs : List Call) :
    account (l ++ cs.map (Event.called p)) p = cs.foldl Account.call (account l p) := by
  induction cs using List.reverseRecOn with
  | nil => rw [List.map_nil, List.append_nil, List.foldl_nil]
  | append_singleton cs c ih =>
    rw [List.map_append, List.map_singleton, ← List.append_assoc, account_called_self, ih,
      List.foldl_append, List.foldl_cons, List.foldl_nil]

theorem custody_calls (l : List Event) (p : Pcb) (cs : List Call) (b : ℕ) :
    custody (l ++ cs.map (Event.called p)) b = custody l b := by
  refine Ledgers.account_append_of_ne fun e he => ?_
  obtain ⟨c, -, rfl⟩ := List.mem_map.mp he
  exact nofun

theorem tenant_calls (l : List Event) (p : Pcb) (cs : List Call) (k : Slot) :
    tenant (l ++ cs.map (Event.called p)) k = tenant l k := by
  refine Ledgers.account_append_of_ne fun e he => ?_
  obtain ⟨c, -, rfl⟩ := List.mem_map.mp he
  exact nofun

theorem Given.calls (h : Given l p) (cs : List Call) : Given (l ++ cs.map (Event.called p)) p := by
  obtain ⟨pre, before, rfl⟩ := h
  exact ⟨pre, before ++ cs, by rw [List.map_append, List.append_assoc, List.append_assoc]⟩

/-- One more call, which may end the PCB. -/
theorem lawful_called (hl : Lawful l) (hlife : (account l p).life = .live ∨ Given l p) (c : Call) :
    Lawful (l ++ [Event.called p c]) :=
  lawful_concat.mpr ⟨hl, hlife⟩

/-- Calls on a PCB that is alive, or was just given, are lawful as long as none ends it. -/
theorem lawful_calls (hl : Lawful l) (hlife : (account l p).life = .live ∨ Given l p) (cs : List Call)
    (hends : ∀ c ∈ cs, c.ends = false) :
    Lawful (l ++ cs.map (Event.called p)) ∧
      (account (l ++ cs.map (Event.called p)) p).life = (account l p).life := by
  induction cs using List.reverseRecOn with
  | nil =>
    rw [List.map_nil, List.append_nil]
    exact ⟨hl, rfl⟩
  | append_singleton cs c ih =>
    obtain ⟨hlaw, hsame⟩ := ih fun x hx => hends x (by simp [hx])
    rw [List.map_append, List.map_singleton, ← List.append_assoc, account_called_self,
      life_call _ (hends c (by simp))]
    refine ⟨lawful_called hlaw ?_ c, hsame⟩
    exact hlife.imp (fun hlive => hsame.trans hlive) fun hgiven => hgiven.calls cs

section Touches

variable {l' : List Event} {op : Option Pcb} {ob : Option ℕ}

theorem Touches.same (l : List Event) (op : Option Pcb) (ob : Option ℕ) (k : Slot) :
    Touches l l op ob k :=
  ⟨fun _ _ => rfl, fun _ _ => rfl, fun _ _ => rfl⟩

theorem Touches.concat (h : Touches l l' op ob k) {e : Event} (hp : e.pcb = none ∨ e.pcb = op)
    (hb : e.pbuf = none ∨ e.pbuf = ob) (hk : e.slot = none ∨ e.slot = some k) :
    Touches l (l' ++ [e]) op ob k := by
  have hstep : Touches l' (l' ++ [e]) op ob k := touches_append fun x hx => by
    rw [List.mem_singleton.mp hx]
    exact ⟨hp, hb, hk⟩
  exact ⟨fun q hq => (hstep.account q hq).trans (h.account q hq),
    fun x hx => (hstep.custody x hx).trans (h.custody x hx),
    fun j hj => (hstep.tenant j hj).trans (h.tenant j hj)⟩

theorem Touches.calls (h : Touches l l' (some p) ob k) (cs : List Call) :
    Touches l (l' ++ cs.map (Event.called p)) (some p) ob k := by
  induction cs using List.reverseRecOn with
  | nil =>
    rw [List.map_nil, List.append_nil]
    exact h
  | append_singleton cs c ih =>
    rw [List.map_append, List.map_singleton, ← List.append_assoc]
    exact ih.concat (.inr rfl) (.inl rfl) (.inl rfl)

end Touches

/-- The calls of `detach`, and of its counterpart. -/
def detach_calls : List Call := [.arg none, .recv false, .err false, .sent false]

def attach_calls (k : Slot) : List Call := [.arg (some k), .recv true, .err true, .sent true]

theorem detach_eq (t : Link) (p : Pcb) :
    t.detach p = ⟨t.connection, t.trace ++ detach_calls.map (Event.called p)⟩ := by
  simp only [Link.detach, Link.call, Link.log, detach_calls, List.map_cons, List.map_nil,
    List.append_assoc, List.cons_append, List.nil_append]

theorem attach_eq (t : Link) (p : Pcb) (k : Slot) :
    t.attach p k = ⟨t.connection, t.trace ++ (attach_calls k).map (Event.called p)⟩ := by
  simp only [Link.attach, Link.call, Link.log, attach_calls, List.map_cons, List.map_nil,
    List.append_assoc, List.cons_append, List.nil_append]

/-- What `abort_pcb` records. -/
def abort_trace (l : List Event) (p : Pcb) : List Event :=
  l ++ detach_calls.map (Event.called p) ++ [Event.called p .abort]

theorem abort_pcb_eq {t : Link} (h : t.connection.pcb = some p) :
    t.abort_pcb = ⟨{ t.connection with pcb := none }, abort_trace t.trace p⟩ := by
  simp only [Link.abort_pcb, h, detach_eq, Link.call, Link.log, abort_trace]

theorem abort_pcb_none {t : Link} (h : t.connection.pcb = none) : t.abort_pcb = t := by
  simp only [Link.abort_pcb, h]

/-- The account of a PCB that was detached. -/
def Account.detached (v : Account) : Account :=
  { v with arg := none, recv := false, err := false, sent := false }

theorem account_abort (l : List Event) (p : Pcb) :
    account (abort_trace l p) p = { (account l p).detached with life := .gone } := by
  rw [abort_trace, account_called_self, account_calls]
  rfl

theorem custody_abort (l : List Event) (p : Pcb) (b : ℕ) :
    custody (abort_trace l p) b = custody l b := by
  rw [abort_trace, custody_other (by rfl), custody_calls]

theorem tenant_abort (l : List Event) (p : Pcb) (k : Slot) :
    tenant (abort_trace l p) k = tenant l k := by
  rw [abort_trace, tenant_other (by rfl), tenant_calls]

theorem detach_calls_ends : ∀ c ∈ detach_calls, c.ends = false := by decide

theorem attach_calls_ends (k : Slot) : ∀ c ∈ attach_calls k, c.ends = false := by
  intro c hc
  simp only [attach_calls, List.mem_cons, List.not_mem_nil, or_false] at hc
  rcases hc with rfl | rfl | rfl | rfl <;> rfl

theorem lawful_abort (hl : Lawful l) (hlife : (account l p).life = .live) :
    Lawful (abort_trace l p) := by
  obtain ⟨hlaw, hsame⟩ := lawful_calls hl (.inl hlife) _ detach_calls_ends
  exact lawful_called hlaw (.inl (hsame.trans hlife)) _

theorem Touches.abort {l' : List Event} {ob : Option ℕ} (h : Touches l l' (some p) ob k) :
    Touches l (abort_trace l' p) (some p) ob k :=
  (h.calls _).concat (.inr rfl) (.inl rfl) (.inl rfl)

/-- The account after `abort_pcb` is as fair as before. -/
theorem Fair.abort {v : Account} (h : Fair v) : Fair { v.detached with life := .gone } :=
  ⟨h.handed, h.credit⟩

/-! ## Actions on one slot -/

section Actions

variable {conn : Slot → Connection} {alive : Slot → Bool} {l' : List Event} {c : Connection}

/-- The frame rule for an action that neither makes nor destroys a session. -/
theorem Inv.adjust (h : Inv conn alive l) {op : Option Pcb} {ob : Option ℕ}
    (htouch : Touches l l' op ob k) (hlaw : Lawful l') (hslot : SlotOk l' k c (alive k))
    (hp : ∀ q, op = some q → PcbStep l l' k c q)
    (hpcb : ∀ q, (conn k).pcb = some q → op = some q ∨ c.pcb = some q)
    (hb : ∀ x, ob = some x → PbufStep l l' k c x)
    (hpacket : ∀ y, (conn k).packet = some y → ob = some y.handle ∨ c.packet = some y) :
    Inv (Function.update conn k c) alive l' := by
  have hupdate := h.update htouch hlaw hslot hp hpcb hb hpacket
  rwa [Function.update_eq_self] at hupdate

/-- Events that leave every account as it was. -/
theorem Inv.congr (h : Inv conn alive l) (hlaw : Lawful l')
    (haccount : ∀ q, account l' q = account l q) (hcustody : ∀ x, custody l' x = custody l x)
    (htenant : ∀ j, tenant l' j = tenant l j) : Inv conn alive l' := by
  refine ⟨hlaw, fun j => ?_, ?_, ?_, ?_, ?_⟩
  · exact (h.slots j).congr (fun q _ => haccount q) (fun b _ => hcustody _) (htenant j)
  · simpa only [haccount] using h.live
  · simpa only [hcustody] using h.kept
  · simpa only [haccount] using h.fair
  · simpa only [haccount] using h.fresh

/-- An event that is about no handle. -/
theorem Inv.note (h : Inv conn alive l) {e : Event} (hpcb : e.pcb = none) (hpbuf : e.pbuf = none)
    (hslot : e.slot = none) (he : allowed l e) : Inv conn alive (l ++ [e]) := by
  refine h.congr (lawful_concat.mpr ⟨h.lawful, he⟩) (fun q => ?_) (fun x => ?_) (fun j => ?_)
  · exact account_other hpcb ..
  · exact custody_other hpbuf ..
  · exact tenant_other hslot ..

/-- A call that changes nothing of what a PCB is. -/
theorem Inv.call (h : Inv conn alive l) (hpcb : (conn k).pcb = some p) {c : Call}
    (hc : ∀ v : Account, v.call c = v) : Inv conn alive (l ++ [Event.called p c]) := by
  have hlife := ((h.slots k).attached p hpcb).life
  refine h.congr (lawful_called h.lawful (.inl hlife) c) (fun q => ?_) (fun x => ?_) (fun j => ?_)
  · by_cases hq : p = q
    · rw [← hq, account_called_self, hc]
    · exact (account_concat ..).trans (if_neg fun h => hq (Option.some.inj h))
  · exact custody_other rfl ..
  · exact tenant_other rfl ..

/-- A slot with nothing in it. -/
structure Empty (c : Connection) : Prop where
  pcb : c.pcb = none
  packet : c.packet = none
  offset : c.offset = 0
  occupied : c.occupied = false
  closing : c.closing = false
  replacing : c.replacing = false

theorem Empty.ok (h : Empty c) (htenant : tenant l k = none) : SlotOk l k c false where
  attached p hp := absurd (h.pcb.symm.trans hp) nofun
  server p hp := absurd (h.pcb.symm.trans hp) nofun
  empty _ := ⟨h.pcb, h.packet, rfl, h.closing, h.replacing⟩
  packet b hb := absurd (h.packet.symm.trans hb) nofun
  offset b hb := absurd (h.packet.symm.trans hb) nofun
  unread _ := h.offset
  session := by rw [htenant]; rfl
  resident _ p hp := absurd (h.pcb.symm.trans hp) nofun
  reserved _ p hp := absurd (h.pcb.symm.trans hp) nofun
  retired _ _ := rfl

/-- A slot is emptied and `clear` has come to its end: its PCB is gone, its pbuf was freed and its
session was destroyed. -/
theorem Inv.vacate (h : Inv conn alive l)
    (htouch : Touches l l' (conn k).pcb ((conn k).packet.map Pbuf.handle) k) (hlaw : Lawful l')
    (hgone : ∀ p, (conn k).pcb = some p → (account l' p).life = .gone ∧ Fair (account l' p))
    (hfreed : ∀ b, (conn k).packet = some b → custody l' b.handle = .freed)
    (htenant : tenant l' k = none) (hc : Empty c) :
    Inv (Function.update conn k c) (Function.update alive k false) (l' ++ [Event.cleared k]) := by
  have hs := h.slots k
  have hinv := h.update htouch hlaw (hc.ok htenant) (fun q hq => .gone (hs.attached q hq) (hgone q hq))
    (fun q hq => .inl hq) (hs.freed hfreed) (fun y hy => .inl (congrArg (Option.map Pbuf.handle) hy))
  refine hinv.note rfl rfl rfl ⟨htenant, ?_, ?_⟩
  · intro b p hb
    obtain ⟨x, hx, -⟩ := hinv.kept b p k hb
    rw [Function.update_self, hc.packet] at hx
    cases hx
  · intro p hp hslot
    obtain ⟨j, hj, hpcb⟩ := hinv.live p hp
    rw [hslot] at hj
    obtain rfl := Option.some.inj hj
    rw [Function.update_self, hc.pcb] at hpcb
    cases hpcb

/-! ### `clear` -/

/-- What the steps of `clear` record. -/
def freed_trace (l : List Event) (packet : Option Pbuf) : List Event :=
  packet.elim l fun b => l ++ [Event.freed b]

def destroyed_trace (l : List Event) (k : Slot) (alive : Bool) : List Event :=
  if alive then l ++ [Event.destroyed k] else l

def clear_trace (l : List Event) (k : Slot) (c : Connection) (alive : Bool) : List Event :=
  freed_trace (c.pcb.elim (destroyed_trace l k alive) (abort_trace (destroyed_trace l k alive)))
    c.packet

theorem account_freed (l : List Event) (packet : Option Pbuf) (q : Pcb) :
    account (freed_trace l packet) q = account l q := by
  cases packet with
  | none => rfl
  | some b => exact account_other rfl ..

theorem tenant_freed (l : List Event) (packet : Option Pbuf) (j : Slot) :
    tenant (freed_trace l packet) j = tenant l j := by
  cases packet with
  | none => rfl
  | some b => exact tenant_other rfl ..

theorem custody_freed {packet : Option Pbuf} {b : Pbuf} (l : List Event) (h : packet = some b) :
    custody (freed_trace l packet) b.handle = .freed := by
  rw [h]
  exact (custody_concat ..).trans (if_pos rfl)

theorem account_destroyed (l : List Event) (k : Slot) (a : Bool) (q : Pcb) :
    account (destroyed_trace l k a) q = account l q := by
  cases a with
  | false => rfl
  | true => exact account_other rfl ..

theorem custody_destroyed (l : List Event) (k : Slot) (a : Bool) (b : ℕ) :
    custody (destroyed_trace l k a) b = custody l b := by
  cases a with
  | false => rfl
  | true => exact custody_other rfl ..

theorem tenant_destroyed {a : Bool} (ha : (tenant l k).isSome = a) :
    tenant (destroyed_trace l k a) k = none := by
  cases a with
  | false => exact Option.isNone_iff_eq_none.mp (Option.isSome_eq_false_iff.mp ha)
  | true => exact (tenant_concat ..).trans (if_pos rfl)

theorem lawful_destroyed {a : Bool} (hl : Lawful l) (ha : (tenant l k).isSome = a) :
    Lawful (destroyed_trace l k a) := by
  cases a with
  | false => exact hl
  | true => exact lawful_concat.mpr ⟨hl, ha⟩

theorem lawful_freed {packet : Option Pbuf} (hl : Lawful l)
    (h : ∀ b, packet = some b → ∃ q, custody l b.handle = .server q k) :
    Lawful (freed_trace l packet) := by
  cases packet with
  | none => exact hl
  | some b =>
    obtain ⟨q, hq⟩ := h b rfl
    exact lawful_concat.mpr ⟨hl, .inr ⟨q, k, hq⟩⟩

theorem Touches.destroyed {op : Option Pcb} {ob : Option ℕ} (h : Touches l l' op ob k) (a : Bool) :
    Touches l (destroyed_trace l' k a) op ob k := by
  cases a with
  | false => exact h
  | true => exact h.concat (.inl rfl) (.inl rfl) (.inr rfl)

theorem Touches.freed {op : Option Pcb} {ob : Option ℕ} (h : Touches l l' op ob k)
    {packet : Option Pbuf} (hb : ∀ b, packet = some b → ob = some b.handle) :
    Touches l (freed_trace l' packet) op ob k := by
  cases packet with
  | none => exact h
  | some b => exact h.concat (.inl rfl) (.inr (hb b rfl).symm) (.inl rfl)

section Clear

variable {a : Bool} (ha : (tenant l k).isSome = a)
include ha

theorem lawful_clear (hl : Lawful l)
    (hp : ∀ p, c.pcb = some p → (account l p).life = .live)
    (hb : ∀ b, c.packet = some b → ∃ q, custody l b.handle = .server q k) :
    Lawful (clear_trace l k c a) := by
  have hdestroyed := lawful_destroyed hl ha
  refine lawful_freed (k := k) ?_ ?_
  · cases hpcb : c.pcb with
    | none => exact hdestroyed
    | some p =>
      refine lawful_abort hdestroyed ?_
      rw [account_destroyed]
      exact hp p hpcb
  · intro b hpacket
    obtain ⟨q, hq⟩ := hb b hpacket
    refine ⟨q, ?_⟩
    cases c.pcb with
    | none => exact (custody_destroyed ..).trans hq
    | some p => exact (custody_abort ..).trans ((custody_destroyed ..).trans hq)

theorem tenant_clear : tenant (clear_trace l k c a) k = none := by
  rw [clear_trace, tenant_freed]
  cases c.pcb with
  | none => exact tenant_destroyed ha
  | some p => exact (tenant_abort ..).trans (tenant_destroyed ha)

end Clear

theorem account_clear (l : List Event) (a : Bool) (h : c.pcb = some p) :
    account (clear_trace l k c a) p = { (account l p).detached with life := .gone } := by
  rw [clear_trace, account_freed, h, Option.elim_some, account_abort, account_destroyed]

theorem custody_clear {b : Pbuf} (l : List Event) (a : Bool) (h : c.packet = some b) :
    custody (clear_trace l k c a) b.handle = .freed := custody_freed _ h

theorem Touches.clear {op : Option Pcb} {ob : Option ℕ} (h : Touches l l' op ob k) (a : Bool)
    (hp : ∀ p, c.pcb = some p → op = some p) (hb : ∀ b, c.packet = some b → ob = some b.handle) :
    Touches l (clear_trace l' k c a) op ob k := by
  refine Touches.freed ?_ hb
  cases hpcb : c.pcb with
  | none => exact h.destroyed a
  | some p =>
    have hop := hp p hpcb
    subst hop
    exact (h.destroyed a).abort

/-- **`clear` empties its slot.** -/
theorem Inv.clear (h : Inv conn alive l) (hc : Empty c) :
    Inv (Function.update conn k c) (Function.update alive k false)
      (clear_trace l k (conn k) (alive k) ++ [Event.cleared k]) := by
  have hs := h.slots k
  have hlive : ∀ p, (conn k).pcb = some p → (account l p).life = .live :=
    fun p hp => (hs.attached p hp).life
  have hpacket : ∀ b, (conn k).packet = some b → ∃ q, custody l b.handle = .server q k := by
    intro b hb
    obtain ⟨q, hq, -⟩ := hs.packet b hb
    exact ⟨q, hq⟩
  exact h.vacate
    ((Touches.same l _ _ k).clear (alive k) (fun _ hp => hp)
      (fun b hb => by rw [hb]; rfl))
    (lawful_clear hs.session h.lawful hlive hpacket)
    (fun p hp => by rw [account_clear l _ hp]; exact ⟨rfl, (h.fair p).abort⟩)
    (fun b hb => custody_clear l _ hb) (tenant_clear hs.session) hc

/-! ### The PCB of a slot is lost -/

/-- What the actions make of a connection. -/
def Connection.lost (c : Connection) : Connection := { c with pcb := none }

def Connection.drained (c : Connection) : Connection := { c with packet := none, offset := 0 }

def Connection.retired (c : Connection) (now : UInt32) : Connection :=
  { c with closing := true, closing_at := now }

def Connection.settled (c : Connection) : Connection :=
  { c with closing := false, replacing := false, unacked := 0 }

def Connection.unused (c : Connection) : Connection :=
  { c with occupied := false, closing := false, replacing := false, unacked := 0 }

/-- A slot's PCB is gone. The events may also be about a pbuf that no slot has. -/
theorem Inv.lose (h : Inv conn alive l) (hpcb : (conn k).pcb = some p) (ob : Option ℕ)
    (htouch : Touches l l' (some p) ob k) (hlaw : Lawful l') (htenant : tenant l' k = tenant l k)
    (hgone : (account l' p).life = .gone ∧ Fair (account l' p))
    (hb : ∀ x, ob = some x → ∀ q j, custody l x ≠ .server q j ∧ custody l' x ≠ .server q j) :
    Inv (Function.update conn k (conn k).lost) alive l' := by
  have hs := h.slots k
  have hslot : SlotOk l' k (conn k).lost (alive k) := by
    refine ⟨nofun, nofun, fun ho => ?_, fun b hpacket => ?_, hs.offset, hs.unread, ?_, nofun, nofun,
      hs.retired⟩
    · exact absurd (hpcb.symm.trans (hs.empty ho).1) nofun
    · obtain ⟨q, hq, -⟩ := hs.packet b hpacket
      refine ⟨q, ?_, nofun⟩
      rw [htouch.custody b.handle fun hob => (hb _ hob q k).1 hq]
      exact hq
    · rw [htenant]
      exact hs.session
  refine h.adjust htouch hlaw hslot ?_ ?_ ?_ (fun y hy => .inr hy)
  · rintro q ⟨⟩
    exact .gone (hs.attached p hpcb) hgone
  · intro q hq
    exact .inl (hpcb.symm.trans hq)
  · intro x hx
    exact ⟨fun q j hq => absurd hq (hb x hx q j).1, fun q j hq => absurd hq (hb x hx q j).2⟩

/-- `abort_pcb`. -/
theorem Inv.abort (h : Inv conn alive l) (hpcb : (conn k).pcb = some p) :
    Inv (Function.update conn k (conn k).lost) alive (abort_trace l p) := by
  have hlife := ((h.slots k).attached p hpcb).life
  refine h.lose hpcb none (Touches.same l (some p) none k).abort (lawful_abort h.lawful hlife)
    (tenant_abort ..) ?_ nofun
  rw [account_abort]
  exact ⟨rfl, (h.fair p).abort⟩

/-- `failed`. -/
theorem Inv.failed (h : Inv conn alive l) (hpcb : (conn k).pcb = some p) :
    Inv (Function.update conn k (conn k).lost) alive (l ++ [Event.failed p]) := by
  have hlife := ((h.slots k).attached p hpcb).life
  refine h.lose hpcb none ((Touches.same l (some p) none k).concat (.inr rfl) (.inl rfl) (.inl rfl))
    (lawful_concat.mpr ⟨h.lawful, hlife⟩) (tenant_other rfl ..) ?_ nofun
  rw [account_concat, if_pos (by rfl)]
  exact ⟨rfl, (h.fair p).handed, (h.fair p).credit⟩

/-! ### Sessions come and go -/

/-- A session is made for the PCB of a slot that has none. -/
theorem Inv.construct (h : Inv conn alive l) (hpcb : (conn k).pcb = some p)
    (hclosing : (conn k).closing = false) (hreplacing : (conn k).replacing = false)
    (ha : alive k = false) :
    Inv conn (Function.update alive k true)
      (l ++ [Event.constructed (constructions l) k (conn k).pcb]) := by
  have hs := h.slots k
  have hattached := hs.attached p hpcb
  have hr := hs.resident hreplacing p hpcb
  have hnone := hs.vacant ha
  set l' := l ++ [Event.constructed (constructions l) k (conn k).pcb] with hl'
  have haccount : account l' p = { account l p with served := true } := by
    rw [hl', account_concat, if_pos (by exact hpcb)]
    rfl
  have htenant : tenant l' k = some (constructions l, (conn k).pcb) := by
    rw [hl', tenant_concat, if_pos (by rfl)]
    rfl
  have hcustody : ∀ x, custody l' x = custody l x := by
    intro x
    rw [hl', custody_other (by rfl)]
  have htouch : Touches l l' (some p) none k :=
    (Touches.same l (some p) none k).concat (.inr hpcb) (.inl rfl) (.inr rfl)
  -- the PCB has had no session yet: one is made at most once for it
  have hlaw : Lawful l' := lawful_concat.mpr ⟨h.lawful, rfl, hnone, p, hpcb, hattached.life,
    hattached.slot, hr.served hclosing hnone⟩
  have hsame : ∀ q, (conn k).pcb = some q → q = p :=
    fun q hq => Option.some.inj (hq.symm.trans hpcb)
  have hslot : SlotOk l' k (conn k) true := by
    refine ⟨?_, hs.server, fun ho => ?_, ?_, hs.offset, hs.unread, ?_, ?_, ?_, fun hc => ?_⟩
    · intro q hq
      rw [hsame q hq, haccount]
      exact ⟨hattached.life, hattached.slot, hattached.arg, hattached.recv, hattached.err,
        hattached.sent⟩
    · exact absurd (hpcb.symm.trans (hs.empty ho).1) nofun
    · intro b hb
      rw [hcustody]
      exact hs.packet b hb
    · rw [htenant]
      rfl
    · intro _ q hq
      rw [hsame q hq]
      refine ⟨?_, ?_, ?_, ?_⟩
      · intro n pcb hn
        rw [htenant] at hn
        cases hn
        exact hpcb
      · intro _ hn
        rw [htenant] at hn
        cases hn
      · rw [haccount]
        exact hr.rest
      · rw [haccount]
        exact hr.asked
    · intro hc
      rw [hreplacing] at hc
      cases hc
    · rw [hclosing] at hc
      cases hc
  have hupdate := h.update htouch hlaw hslot ?_ (fun q hq => .inr hq) nofun (fun y hy => .inr hy)
  · rwa [Function.update_eq_self] at hupdate
  · rintro q ⟨⟩
    refine .stays hattached (hslot.attached p hpcb) hpcb ?_
    rw [haccount]
    exact ⟨(h.fair p).handed, (h.fair p).credit⟩

/-- What the first loop of `poll` leaves: every slot that is in use has its PCB. -/
structure Tidy (c : Connection) : Prop where
  replacing : c.replacing = false
  pcb : c.occupied = true → c.pcb.isSome = true

/-- A session is polled when no session is left whose PCB is gone. -/
theorem Inv.polled (h : Inv conn alive l) (htidy : ∀ j, Tidy (conn j)) (ha : alive k = true) :
    Inv conn alive (l ++ [Event.polled k]) := by
  refine h.note rfl rfl rfl ⟨?_, fun j n pcb htenant => ?_⟩
  · rw [(h.slots k).session, ha]
  · have hs := h.slots j
    have halive : alive j = true := by
      rw [← hs.session, htenant]
      rfl
    have hoccupied : (conn j).occupied = true := by
      by_contra ho
      rw [(hs.empty (Bool.eq_false_of_not_eq_true ho)).2.2.1] at halive
      cases halive
    obtain ⟨p, hp⟩ := Option.isSome_iff_exists.mp ((htidy j).pcb hoccupied)
    have hattached := hs.attached p hp
    exact ⟨p, (hs.resident (htidy j).replacing p hp).made n pcb htenant, hattached.life,
      hattached.slot⟩

/-- A session that has ended is destroyed and its connection goes on to be closed. -/
theorem Inv.retire (h : Inv conn alive l) (hpcb : (conn k).pcb = some p)
    (hreplacing : (conn k).replacing = false) (now : UInt32) :
    Inv (Function.update conn k ((conn k).retired now))
      (Function.update alive k false) (destroyed_trace l k (alive k)) := by
  have hs := h.slots k
  have htenant := tenant_destroyed hs.session
  have hslot : SlotOk (destroyed_trace l k (alive k)) k
      ((conn k).retired now) false := by
    refine ⟨?_, hs.server, fun ho => ?_, ?_, hs.offset, hs.unread, ?_, ?_, ?_, fun _ _ => rfl⟩
    · intro q hq
      rw [account_destroyed]
      exact hs.attached q hq
    · exact absurd (hpcb.symm.trans (hs.empty ho).1) nofun
    · intro b hb
      rw [custody_destroyed]
      exact hs.packet b hb
    · rw [htenant]
      rfl
    · intro _ q hq
      have hr := hs.resident hreplacing q hq
      refine ⟨?_, nofun, ?_, ?_⟩
      · rw [htenant]
        exact nofun
      · rw [account_destroyed]
        exact hr.rest
      · rw [account_destroyed]
        exact fun hasked => ⟨rfl, (hr.asked hasked).2⟩
    · intro hc
      rw [show (conn k).replacing = true from hc] at hreplacing
      cases hreplacing
  exact h.update ((Touches.same l none none k).destroyed (alive k))
    (lawful_destroyed h.lawful hs.session) hslot nofun (fun q hq => .inr hq) nofun
    (fun y hy => .inr hy)

/-- What the dead socket has left in a slot that was reserved for a new one is disposed of. -/
theorem Inv.settle (h : Inv conn alive l) (hreplacing : (conn k).replacing = true) :
    Inv
      (Function.update conn k (conn k).drained.settled)
      (Function.update alive k false)
      (freed_trace (destroyed_trace l k (alive k)) (conn k).packet) := by
  have hs := h.slots k
  set l' := freed_trace (destroyed_trace l k (alive k)) (conn k).packet with hl'
  have haccount : ∀ q, account l' q = account l q := by
    intro q
    rw [hl', account_freed, account_destroyed]
  have htenant : tenant l' k = none := by
    rw [hl', tenant_freed, tenant_destroyed hs.session]
  have hslot : SlotOk l' k (conn k).drained.settled false := by
    refine ⟨?_, hs.server, fun ho => ?_, nofun, nofun, fun _ => rfl, ?_, ?_, nofun, nofun⟩
    · intro q hq
      rw [haccount]
      exact hs.attached q hq
    · exact ⟨(hs.empty ho).1, rfl, rfl, rfl, rfl⟩
    · rw [htenant]
      rfl
    · intro _ q hq
      -- the PCB that waits for the slot has neither sent nor been served yet
      have hblank := hs.reserved hreplacing q hq
      refine ⟨?_, ?_, ?_, ?_⟩
      · rw [htenant]
        exact nofun
      · rw [haccount]
        exact fun _ _ => hblank.served
      · rw [haccount, hblank.taken, hblank.handed]
        exact fun _ => rfl
      · rw [haccount, hblank.asked]
        exact nofun
  have hlaw : Lawful l' := by
    refine lawful_freed (k := k) (lawful_destroyed h.lawful hs.session) fun b hb => ?_
    obtain ⟨q, hq, -⟩ := hs.packet b hb
    exact ⟨q, (custody_destroyed ..).trans hq⟩
  refine h.update (((Touches.same l none ((conn k).packet.map Pbuf.handle) k).destroyed _).freed
    fun b hb => by rw [hb]; rfl) hlaw hslot nofun (fun q hq => .inr hq)
    (hs.freed fun b hb => custody_freed _ hb) ?_
  intro y hy
  rw [hy]
  exact .inl rfl

end Actions

end Firmingo.Tcp
