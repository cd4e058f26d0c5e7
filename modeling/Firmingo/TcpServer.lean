/-
Runs of the TCP server.

Each function of the server keeps the invariant of its handles: the actions of `TcpHandles` and
`TcpBytes` are what the functions do to one slot, and the control flow around them supplies what
each action asks for. A poll first disposes of the slots whose PCB is gone, and only then polls
sessions, so that a session is never polled next to one that has lost its connection.
-/
import Firmingo.TcpBytes

set_option autoImplicit false

open Octets

namespace Firmingo

open Tcp

variable {β υ τ : Type}

/-- A poll does nothing to its transport but write once and read once. -/
theorem Ctx.poll_on_keeps [StreamBackend β] [UploadService υ] (io : ByteIO τ) {P : τ → Prop}
    (hwrite : ∀ t data, P t → P (io.write t data).2) (hread : ∀ t n, P t → P (io.read t n).2)
    (c : Ctx β υ) (now : UInt32) (memory : Option MemorySamples) {t : τ} (h : P t) :
    P (c.poll_on io now memory t).1 := by
  have hflush : P (c.flush_io io t) := by
    unfold Ctx.flush_io
    split
    · exact h
    · exact hwrite _ _ h
  have hreceive : ∀ c' : Ctx β υ, P (c'.receive_io io (c.flush_io io t)) := by
    intro c'
    unfold Ctx.receive_io
    split
    · exact hflush
    · exact hread _ _ hflush
  unfold Ctx.poll_on
  simp only
  split
  · exact h
  split
  · exact h
  split
  · exact h
  split
  · exact hflush
  split
  · split
    · exact hflush
    · exact hflush
  split
  · exact hreceive _
  · exact hreceive _

variable {c : Connection}

namespace Tcp

/-! ## What the functions on a connection do -/

theorem Connection.lost_of_none (h : c.pcb = none) : c.lost = c := by
  obtain ⟨⟩ := c
  simp only at h
  subst h
  rfl

theorem abort_pcb_state (t : Link) :
    t.abort_pcb = ⟨t.connection.lost, t.connection.pcb.elim t.trace (abort_trace t.trace)⟩ := by
  cases h : t.connection.pcb with
  | none =>
    rw [abort_pcb_none h, Connection.lost_of_none h]
    rfl
  | some p =>
    rw [abort_pcb_eq h]
    rfl

theorem discard_packet_state (t : Link) :
    t.discard_packet = ⟨t.connection.drained, freed_trace t.trace t.connection.packet⟩ := by
  cases h : t.connection.packet with
  | none => simp only [Link.discard_packet, h, freed_trace, Connection.drained, Option.elim_none]
  | some b =>
    simp only [Link.discard_packet, h, freed_trace, Connection.drained, Option.elim_some, Link.log]

theorem empty_unused (c : Connection) (h : c.pcb = none) : Empty c.drained.unused :=
  ⟨h, rfl, rfl, rfl, rfl, rfl⟩

theorem Empty.tidy (h : Empty c) : Tidy c :=
  ⟨h.replacing, fun ho => absurd (h.occupied.symm.trans ho) nofun⟩

/-- A change of a connection that no handle depends on. -/
theorem Inv.unacked {conn : Slot → Connection} {alive : Slot → Bool} {l : List Event} {k : Slot}
    (h : Inv conn alive l) (n : UInt32) :
    Inv (Function.update conn k { conn k with unacked := n }) alive l := by
  have hs := h.slots k
  refine h.adjust (Touches.refl l k) h.lawful ?_ nofun (fun q hq => .inr hq) nofun
    (fun y hy => .inr hy)
  refine ⟨hs.attached, hs.server, hs.empty, hs.packet, hs.offset, hs.unread, hs.session, ?_,
    hs.reserved, hs.retired⟩
  intro hreplacing p hp
  have hr := hs.resident hreplacing p hp
  exact ⟨hr.made, hr.served, hr.rest, hr.asked⟩

end Tcp

namespace TcpSessionServer

/-! ## The fields of a server after each function -/

section Fields

variable (srv : TcpSessionServer β υ) (k : Slot)

/-- Which slots have a session. -/
def alive (j : Slot) : Bool := (srv.session j).isSome

/-- The invariant, of a server. -/
def Ok : Prop := Inv srv.connections srv.alive srv.trace

theorem token_injective : Function.Injective token := by decide

theorem token_ne_zero (k : Slot) : token k ≠ 0 := by
  revert k
  decide

theorem hang_up_connections (p : Pcb) (answer : Err) :
    (srv.hang_up k p answer).connections
      = Function.update srv.connections k (srv.connections k).drained := by
  unfold hang_up on relink link
  cases h : (srv.connections k).packet with
  | none => simp only [h, discard_packet_state, detach_eq, Tcp.Link.call, Tcp.Link.log]
  | some b => simp only [h, discard_packet_state, detach_eq, Tcp.Link.call, Tcp.Link.log]

theorem hang_up_trace_eq (p : Pcb) (answer : Err) :
    (srv.hang_up k p answer).trace = hang_up_trace srv.trace p (srv.connections k) answer := by
  unfold hang_up on relink link hang_up_trace rest_trace
  cases h : (srv.connections k).packet with
  | none => simp only [h, discard_packet_state, detach_eq, Tcp.Link.call, Tcp.Link.log, Option.elim_none]
  | some b => simp only [h, discard_packet_state, detach_eq, Tcp.Link.call, Tcp.Link.log, Option.elim_some]

theorem put_alive {s : Session} (hs : srv.session k = some s) (c : Ctx β υ) (t : Tcp.Link) :
    ({ srv.relink k t with sys := srv.sys.put (token k) c } : TcpSessionServer β υ).alive
      = srv.alive := by
  funext j
  change (Function.update srv.sys.sessions (token k) (some c.session) (token j)).isSome
    = (srv.sys.sessions (token j)).isSome
  by_cases hj : j = k
  · subst hj
    rw [Function.update_self, show srv.sys.sessions (token j) = some s from hs]
    rfl
  · rw [Function.update_of_ne fun heq => hj (token_injective heq)]

/-- The connection of a slot after `clear`. -/
def cleared_connection (c : Connection) : Connection := c.lost.drained.unused

theorem cleared_empty (c : Connection) : Empty (cleared_connection c) := empty_unused _ rfl

variable [StreamBackend β] [UploadService υ]

theorem session_destroy (j : Slot) :
    (srv.sys.step (.destroy (token k))).sessions (token j)
      = if j = k then none else srv.session j := by
  have hon : ∀ u, u ≠ token k → (srv.sys.on (token k) Ctx.close).sessions u = srv.sys.sessions u := by
    intro u hu
    unfold System.on
    split
    · rfl
    · exact Function.update_of_ne hu ..
  change Function.update (srv.sys.on (token k) Ctx.close).sessions (token k) none (token j) = _
  by_cases hj : j = k
  · subst hj
    rw [if_pos rfl, Function.update_self]
  · have hne : token j ≠ token k := fun heq => hj (token_injective heq)
    rw [if_neg hj, Function.update_of_ne hne, hon _ hne]
    rfl

theorem destroy_connections : (srv.destroy k).connections = srv.connections := by
  unfold destroy
  split <;> rfl

theorem destroy_trace : (srv.destroy k).trace = destroyed_trace srv.trace k (srv.alive k) := by
  unfold destroy destroyed_trace alive
  split <;> rfl

theorem destroy_alive : (srv.destroy k).alive = Function.update srv.alive k false := by
  funext j
  unfold destroy
  split
  · change ((srv.sys.step (.destroy (token k))).sessions (token j)).isSome = _
    rw [session_destroy]
    by_cases hj : j = k
    · subst hj
      rw [if_pos rfl, Function.update_self]
      rfl
    · rw [if_neg hj, Function.update_of_ne hj]
      rfl
  next hnone =>
    by_cases hj : j = k
    · subst hj
      rw [Function.update_self]
      exact Bool.eq_false_of_not_eq_true hnone
    · rw [Function.update_of_ne hj]

theorem clear_connections :
    (srv.clear k).connections
      = Function.update srv.connections k (cleared_connection (srv.connections k)) := by
  simp only [clear, log, set, on, relink, link, abort_pcb_state, discard_packet_state,
    destroy_connections, Function.update_self, Function.update_idem]
  rfl

theorem clear_trace_eq :
    (srv.clear k).trace
      = clear_trace srv.trace k (srv.connections k) (srv.alive k) ++ [Tcp.Event.cleared k] := by
  simp only [clear, log, set, on, relink, link, abort_pcb_state, discard_packet_state,
    destroy_connections, destroy_trace, Function.update_self]
  rfl

theorem clear_alive : (srv.clear k).alive = Function.update srv.alive k false := destroy_alive srv k

theorem construct_alive (hnone : srv.session k = none) :
    (srv.construct k).alive = Function.update srv.alive k true := by
  have hstep : (srv.sys.step (.construct (token k) (srv.connections k).accepted_at srv.identity
      srv.has_upload)).sessions
      = Function.update srv.sys.sessions (token k) (some (Session.construct srv.identity (token k)
          (srv.connections k).accepted_at
          (if srv.has_upload then some (UploadService.target υ) else none))) := by
    simp only [System.step]
    rw [if_neg]
    · rfl
    · rw [show srv.sys.sessions (token k) = none from hnone, decide_eq_false (token_ne_zero k)]
      exact Bool.false_ne_true
  funext j
  change ((srv.sys.step _).sessions (token j)).isSome = _
  rw [hstep]
  by_cases hj : j = k
  · subst hj
    rw [Function.update_self, Function.update_self]
    rfl
  · rw [Function.update_of_ne fun heq => hj (token_injective heq), Function.update_of_ne hj]
    rfl

end Fields

variable {srv srv' : TcpSessionServer β υ} {k : Slot}

theorem ok_of_eq {conn : Slot → Connection} {alive : Slot → Bool} {l : List Tcp.Event}
    (h : Inv conn alive l) (hconn : srv.connections = conn) (htrace : srv.trace = l)
    (halive : srv.alive = alive) : srv.Ok := by
  unfold Ok
  rw [hconn, htrace, halive]
  exact h

variable {p : Pcb}

theorem call_ok (h : srv.Ok) (hpcb : (srv.connections k).pcb = some p) {c : Call}
    (hc : ∀ v : Account, v.call c = v) : (srv.on k (·.call p c)).Ok := by
  have hinv := Inv.call h hpcb hc
  have hsame : (srv.on k (·.call p c)).connections = srv.connections := Function.update_eq_self ..
  unfold Ok
  rw [hsame]
  exact hinv

/-! ## Callbacks -/

/-- The slot of a PCB that is alive, and the argument that is set on it. -/
theorem Ok.slot_of (h : srv.Ok) (hlive : (account srv.trace p).life = .live) :
    ∃ k, (srv.connections k).pcb = some p ∧ (account srv.trace p).arg = some k := by
  obtain ⟨k, -, hpcb⟩ := h.live p hlive
  exact ⟨k, hpcb, ((h.slots k).attached p hpcb).arg⟩

theorem vacancy_pcb (h : srv.Ok) (hk : srv.vacancy = some k) : (srv.connections k).pcb = none := by
  have hfree := List.find?_some hk
  simp only [Bool.not_and, Bool.or_eq_true, Bool.not_eq_eq_eq_not, Bool.not_true,
    Option.isSome_eq_false_iff, Option.isNone_iff_eq_none] at hfree
  rcases hfree with hfree | hfree
  · exact ((h.slots k).empty hfree).1
  · exact hfree

/-- A connection that is offered takes a slot or is turned away. -/
theorem Ok.accept (h : srv.Ok) {pcb : Option Pcb}
    (hnew : ∀ p ∈ pcb, (account srv.trace p).life = .unknown) (error : Err) (clock : UInt32) :
    (srv.accept pcb error clock).2.Ok := by
  unfold TcpSessionServer.accept
  cases pcb with
  | none => exact h
  | some p =>
    have hunknown := hnew p rfl
    simp only
    split
    next k hk =>
      have hvacant : (srv.connections k).pcb = none := by
        refine vacancy_pcb h ?_
        split at hk
        · exact hk
        · cases hk
      have hinv := Inv.accept h hunknown hvacant clock
      have hconn : ((srv.log (.offered p)).reserve k p clock).connections
          = Function.update srv.connections k ((srv.connections k).reserved p clock) := by
        simp only [reserve, log, set, on, relink, link, attach_eq, Tcp.Link.call, Tcp.Link.log,
          Function.update_self, Function.update_idem]
        rfl
      have htrace : ((srv.log (.offered p)).reserve k p clock).trace
          = accept_trace srv.trace k p := by
        simp only [reserve, log, set, on, relink, link, attach_eq, Tcp.Link.call, Tcp.Link.log]
        rfl
      exact ok_of_eq hinv hconn htrace rfl
    · exact Inv.reject h hunknown

theorem on_lost (srv : TcpSessionServer β υ) (hpcb : (srv.connections k).pcb = some p) :
    (srv.on k Tcp.Link.abort_pcb).connections = Function.update srv.connections k (srv.connections k).lost ∧
      (srv.on k Tcp.Link.abort_pcb).trace = abort_trace srv.trace p := by
  simp only [on, relink, link, abort_pcb_state, hpcb, Option.elim_some, and_self]

/-- A packet that arrives is kept, refused, or ends the connection. -/
theorem Ok.receive (h : srv.Ok) (hpcb : (srv.connections k).pcb = some p) {packet : Option Pbuf}
    (hstack : ∀ b ∈ packet, custody srv.trace b.handle = .stack) (error : Err) :
    (srv.receive k p packet error).2.Ok := by
  unfold TcpSessionServer.receive
  cases packet with
  | none =>
    have hinv := Inv.receive_end h hpcb
    obtain ⟨hconn, htrace⟩ := on_lost (srv.log (.receiving p none)) hpcb
    exact ok_of_eq hinv hconn (congrArg (· ++ [Tcp.Event.returned p k none .abrt]) htrace) rfl
  | some b =>
    have hb := hstack b rfl
    simp only
    split
    · have hinv := Inv.receive_error h hpcb hb
      obtain ⟨hconn, htrace⟩ :=
        on_lost ((srv.log (.receiving p (some b))).log (.freed b)) hpcb
      exact ok_of_eq hinv hconn (congrArg (· ++ [Tcp.Event.returned p k (some b) .abrt]) htrace) rfl
    split
    · exact Inv.receive_refused h hpcb hb
    next hfree =>
      simp only [Bool.or_eq_true, not_or, Bool.not_eq_true, Option.isSome_eq_false_iff,
        Option.isNone_iff_eq_none] at hfree
      have hinv := Inv.receive_taken h hpcb hb hfree.1.1 hfree.1.2 hfree.2
      have hserver : ((srv.log (.receiving p (some b))).connections k).server = true :=
        (h.slots k).server p hpcb
      rw [if_pos hserver]
      exact hinv

theorem Ok.failed (h : srv.Ok) (hpcb : (srv.connections k).pcb = some p) : (srv.failed k p).Ok := by
  have hinv := Inv.failed h hpcb
  unfold TcpSessionServer.failed
  simp only
  split <;> exact hinv

theorem Ok.sent (h : srv.Ok) (k : Slot) (bytes : UInt16) : (srv.sent k bytes).Ok := by
  have hinv := Inv.unacked (k := k) h
    ((srv.connections k).unacked - min bytes.toUInt32 (srv.connections k).unacked)
  unfold TcpSessionServer.sent
  simp only
  split <;> exact hinv

/-- **Every callback keeps the handles in order.** -/
theorem Ok.callback (h : srv.Ok) (c : Callback) : (srv.callback c).Ok := by
  unfold TcpSessionServer.callback
  split
  · exact h
  next henabled =>
    simp only [Bool.not_eq_eq_eq_not, Bool.not_true, Bool.not_eq_false] at henabled
    cases c with
    | accept pcb error clock =>
      simp only [enabled, Bool.and_eq_true, Option.all_eq_true, decide_eq_true_eq] at henabled
      exact h.accept (fun p hp => henabled.2 p hp) error clock
    | receive p packet error =>
      simp only [enabled, Bool.and_eq_true, decide_eq_true_eq, Option.all_eq_true] at henabled
      obtain ⟨k, hpcb, harg⟩ := h.slot_of henabled.1.1
      simp only [harg, Option.elim_some]
      exact h.receive hpcb (fun b hb => henabled.2 b hb) error
    | failed p =>
      simp only [enabled, Bool.and_eq_true, decide_eq_true_eq] at henabled
      obtain ⟨k, hpcb, harg⟩ := h.slot_of henabled.1
      simp only [harg, Option.elim_some]
      exact h.failed hpcb
    | sent p bytes =>
      simp only [enabled, Bool.and_eq_true, decide_eq_true_eq] at henabled
      obtain ⟨k, hpcb, harg⟩ := h.slot_of henabled.1
      simp only [harg, Option.elim_some]
      exact h.sent k bytes

theorem Ok.callbacks (h : srv.Ok) (cs : List Callback) : (cs.foldl TcpSessionServer.callback srv).Ok := by
  induction cs generalizing srv with
  | nil => exact h
  | cons c cs ih => exact ih (h.callback c)

theorem initial_ok (b : β) (u : υ) (has_upload : Bool) : (initial b u has_upload).Ok where
  lawful := Ledgers.lawful_nil
  slots _ := Empty.ok ⟨rfl, rfl, rfl, rfl, rfl, rfl⟩ rfl
  live _ h := by cases h
  kept _ _ _ h := by cases h
  fair _ := ⟨List.prefix_rfl, rfl⟩
  fresh _ _ := rfl

/-! ## `close` -/

/-- What `close` leaves of a slot: it is empty or its PCB is still there. -/
structure Closed (srv srv' : TcpSessionServer β υ) (k : Slot) : Prop where
  ok : srv'.Ok
  tidy : Tidy (srv'.connections k)
  other : ∀ j, j ≠ k → srv'.connections j = srv.connections j

theorem Closed.of_eq (hok : srv'.Ok) (hconn : srv'.connections = Function.update srv.connections k c)
    (htidy : Tidy c) : Closed srv srv' k := by
  refine ⟨hok, ?_, fun j hj => ?_⟩
  · rw [hconn, Function.update_self]
    exact htidy
  · rw [hconn, Function.update_of_ne hj]

variable [StreamBackend β] [UploadService υ]

theorem Ok.clear (h : srv.Ok) (k : Slot) : (srv.clear k).Ok := by
  unfold Ok
  rw [clear_connections, clear_trace_eq, clear_alive]
  exact Inv.clear h (cleared_empty _)

theorem Ok.cleared (h : srv.Ok) (k : Slot)
    (hother : ∀ j, j ≠ k → srv.connections j = srv'.connections j) : Closed srv' (srv.clear k) k := by
  refine ⟨h.clear k, ?_, fun j hj => ?_⟩
  · rw [clear_connections, Function.update_self]
    exact (cleared_empty _).tidy
  · rw [clear_connections, Function.update_of_ne hj]
    exact hother j hj

/-- **`close` keeps the handles in order.** -/
theorem Ok.close (h : srv.Ok)
    (hclosing : (srv.connections k).closing = true) (hreplacing : (srv.connections k).replacing = false)
    (now : UInt32) (a : Tcp.Answers) : Closed srv (srv.close k now a) k := by
  unfold TcpSessionServer.close
  split
  · exact h.cleared k fun _ _ => rfl
  next p hpcb =>
    have hk : Closing srv.connections k p := ⟨hpcb, hclosing, hreplacing⟩
    have hfalse : srv.alive k = false := (h.slots k).retired hclosing hreplacing
    split
    · exact h.cleared k fun _ _ => rfl
    split
    · refine ⟨call_ok h hpcb fun _ => rfl, ?_, fun j hj => Function.update_of_ne hj ..⟩
      rw [show (srv.on k (·.call p .output)).connections = srv.connections from
        Function.update_eq_self ..]
      exact ⟨hreplacing, fun _ => by rw [hpcb]; rfl⟩
    · split
      next hanswer =>
        -- the PCB is lwIP's now, and `clear` finds nothing more to do
        rw [hanswer]
        have hconn : (((srv.hang_up k p .ok).set k fun c => { c with pcb := none }).clear k).connections
            = Function.update srv.connections k
                (cleared_connection (srv.connections k).drained.lost) := by
          rw [clear_connections]
          simp only [set, hang_up_connections, Function.update_self, Function.update_idem]
          rfl
        have htrace : (((srv.hang_up k p .ok).set k fun c => { c with pcb := none }).clear k).trace
            = hang_up_trace srv.trace p (srv.connections k) .ok ++ [Tcp.Event.cleared k] := by
          rw [clear_trace_eq]
          have halive : ((srv.hang_up k p .ok).set k fun c => { c with pcb := none }).alive k = false :=
            hfalse
          rw [halive]
          simp only [set, hang_up_connections, hang_up_trace_eq, Function.update_self]
          rfl
        exact .of_eq (ok_of_eq (Inv.closed h hk (cleared_empty _)) hconn htrace (clear_alive ..)) hconn
          (cleared_empty _).tidy
      next hanswer =>
        -- the callbacks are set again and the next poll tries once more
        rw [hanswer]
        have hconn : ((srv.hang_up k p .mem).on k (·.attach p k)).connections
            = Function.update srv.connections k (srv.connections k).drained := by
          simp only [on, relink, link, attach_eq, hang_up_connections, Function.update_self,
            Function.update_idem]
        have htrace : ((srv.hang_up k p .mem).on k (·.attach p k)).trace
            = hang_up_trace srv.trace p (srv.connections k) .mem
                ++ (attach_calls k).map (Tcp.Event.called p) := by
          simp only [on, relink, link, attach_eq, hang_up_trace_eq]
        refine .of_eq (ok_of_eq (Inv.close_again h hk) hconn htrace rfl) hconn ⟨hreplacing, fun _ => ?_⟩
        rw [show (srv.connections k).drained.pcb = some p from hpcb]
        rfl
      next hok _ =>
        have hdrained : (srv.hang_up k p a.close).connections k = (srv.connections k).drained := by
          rw [hang_up_connections, Function.update_self]
        have hconn : ((srv.hang_up k p a.close).clear k).connections
            = Function.update srv.connections k (cleared_connection (srv.connections k).drained) := by
          rw [clear_connections, hdrained, hang_up_connections, Function.update_idem]
        have htrace : ((srv.hang_up k p a.close).clear k).trace
            = abort_trace (hang_up_trace srv.trace p (srv.connections k) a.close) p ++ [Tcp.Event.cleared k] := by
          have halive : (srv.hang_up k p a.close).alive k = false := hfalse
          rw [clear_trace_eq, halive, hdrained, hang_up_trace_eq, clear_trace,
            show (srv.connections k).drained.pcb = some p from hpcb]
          rfl
        exact .of_eq (ok_of_eq (Inv.close_failed h hk (cleared_empty _) fun heq => hok heq) hconn htrace
          (clear_alive ..)) hconn (cleared_empty _).tidy

/-! ## A session is polled -/

/-- What a poll of the session of slot `k` keeps, of the connection and the trace. -/
structure Serving (conn : Slot → Connection) (alive : Slot → Bool) (k : Slot) (t : Tcp.Link) : Prop where
  inv : Inv (Function.update conn k t.connection) alive t.trace
  closing : t.connection.closing = false
  replacing : t.connection.replacing = false
  occupied : t.connection.occupied = true

section Serving

variable {conn : Slot → Connection} {alive : Slot → Bool} {k : Slot} {t : Tcp.Link}

/-- An action on the slot that is served. -/
theorem Serving.act (h : Serving conn alive k t) {l : List Tcp.Event}
    (hinv : Inv (Function.update (Function.update conn k t.connection) k c) alive l)
    (hclosing : c.closing = t.connection.closing) (hreplacing : c.replacing = t.connection.replacing)
    (hoccupied : c.occupied = t.connection.occupied) : Serving conn alive k ⟨c, l⟩ := by
  rw [Function.update_idem] at hinv
  exact ⟨hinv, hclosing.trans h.closing, hreplacing.trans h.replacing, hoccupied.trans h.occupied⟩

theorem Serving.call (h : Serving conn alive k t) (hpcb : t.connection.pcb = some p) {c : Call}
    (hc : ∀ v : Account, v.call c = v) : Serving conn alive k (t.call p c) :=
  ⟨h.inv.call (k := k) (by rw [Function.update_self]; exact hpcb) hc, h.closing, h.replacing, h.occupied⟩

theorem Serving.write (h : Serving conn alive k t) (a : Tcp.Answers) (data : List Byte) :
    Serving conn alive k (t.write a data).2 := by
  unfold Tcp.Link.write
  split
  · exact h
  next p hpcb =>
    split
    · exact h
    simp only
    have hsndbuf := h.call hpcb (c := .sndbuf) fun _ => rfl
    split
    · exact hsndbuf
    have hwrite := hsndbuf.call (p := p) hpcb
      (c := .write (min data.length a.sndbuf % 2 ^ 16) a.write) fun _ => rfl
    split
    · exact hwrite
    · have hinv := hwrite.inv.unacked (k := k)
        (t.connection.unacked + UInt32.ofNat (min data.length a.sndbuf % 2 ^ 16))
      rw [Function.update_self] at hinv
      exact hwrite.act hinv rfl rfl rfl
    · have hinv := hwrite.inv.abort (k := k) (p := p) (by rw [Function.update_self]; exact hpcb)
      rw [Function.update_self] at hinv
      rw [abort_pcb_eq (p := p) (by exact hpcb)]
      exact hwrite.act hinv rfl rfl rfl

theorem Serving.read (h : Serving conn alive k t) (ha : alive k = true) (capacity : ℕ) :
    Serving conn alive k (t.read k capacity).2 := by
  cases hpcb : t.connection.pcb with
  | none =>
    rw [Tcp.Link.read, hpcb]
    exact h
  | some p =>
    cases hpacket : t.connection.packet with
    | none =>
      rw [Tcp.Link.read, hpcb, hpacket]
      exact h
    | some b =>
      have hself : Function.update conn k t.connection k = t.connection := Function.update_self ..
      have hhand := fun c l' => h.inv.hand (k := k) (p := p) (b := b) (by rw [hself]; exact hpcb)
        (by rw [hself]; exact hpacket) (by rw [hself]; exact h.closing)
        (by rw [hself]; exact h.replacing) ha capacity c l'
      rw [hself] at hhand
      rw [read_eq hpcb hpacket h.closing]
      dsimp only
      split
      next hend => exact h.act (hhand _ _ (.inr ⟨hend, rfl, rfl⟩)) rfl rfl rfl
      · exact h.act (hhand _ _ (.inl ⟨rfl, rfl⟩)) rfl rfl rfl

end Serving

/-- What a poll of a session leaves. -/
structure Polled (srv srv' : TcpSessionServer β υ) (k : Slot) : Prop where
  ok : srv'.Ok
  closing : (srv'.connections k).closing = false
  replacing : (srv'.connections k).replacing = false
  other : ∀ j, j ≠ k → srv'.connections j = srv.connections j

/-- A poll of one session keeps the server in order and the other slot as it was. -/
theorem Ok.poll_session (h : srv.Ok) (htidy : ∀ j, Tidy (srv.connections j)) {s : Session}
    (hs : srv.session k = some s) (hclosing : (srv.connections k).closing = false)
    (hoccupied : (srv.connections k).occupied = true) (now : UInt32) (memory : Option MemorySamples)
    (a : Tcp.Answers) : Polled srv (srv.poll_session k s now memory a).2 k := by
  have ha : srv.alive k = true := by
    rw [alive, hs]
    rfl
  have hpolled := Inv.polled h htidy ha
  have hstart : Serving srv.connections srv.alive k ((srv.log (.polled k)).link k) := by
    refine ⟨?_, hclosing, (htidy k).replacing, hoccupied⟩
    rw [show Function.update srv.connections k ((srv.log (.polled k)).link k).connection
      = srv.connections from Function.update_eq_self ..]
    exact hpolled
  have hend := Ctx.poll_on_keeps (io k a) (P := Serving srv.connections srv.alive k)
    (fun t data ht => ht.write a data) (fun t n ht => ht.read ha n)
    ((srv.log (.polled k)).sys.ctx s) now memory hstart
  refine ⟨?_, ?_, ?_, fun j hj => Function.update_of_ne hj ..⟩
  · unfold Ok
    rw [show (srv.poll_session k s now memory a).2.alive = srv.alive from
      put_alive (srv.log (.polled k)) k hs _ _]
    exact hend.inv
  · change (Function.update srv.connections k _ k).closing = false
    rw [Function.update_self]
    exact hend.closing
  · change (Function.update srv.connections k _ k).replacing = false
    rw [Function.update_self]
    exact hend.replacing

/-- What the second loop of `poll` does to a slot. -/
theorem Ok.conclude (h : srv.Ok) (hreplacing : (srv.connections k).replacing = false) (now : UInt32)
    (a : Tcp.Answers) (result : SessionResult) : Closed srv (srv.conclude k now a result) k := by
  unfold TcpSessionServer.conclude
  split
  · exact h.cleared k fun _ _ => rfl
  next p hpcb =>
    split
    · -- the session has ended, and its connection is closed
      have hretire := Inv.retire h hpcb hreplacing now
      have hconn : ((srv.destroy k).set k fun c => { c with closing := true, closing_at := now }).connections
          = Function.update srv.connections k ((srv.connections k).retired now) := by
        simp only [set, destroy_connections]
        rfl
      have hok : ((srv.destroy k).set k fun c => { c with closing := true, closing_at := now }).Ok :=
        ok_of_eq hretire hconn (destroy_trace ..) (destroy_alive ..)
      have hclosed := hok.close (k := k) (by rw [hconn, Function.update_self]; rfl)
        (by rw [hconn, Function.update_self]; exact hreplacing) now a
      refine ⟨hclosed.ok, hclosed.tidy, fun j hj => ?_⟩
      rw [hclosed.other j hj, hconn, Function.update_of_ne hj]
    · refine ⟨call_ok h hpcb fun _ => rfl, ?_, fun j hj => Function.update_of_ne hj ..⟩
      rw [show (srv.on k (·.call p .output)).connections = srv.connections from
        Function.update_eq_self ..]
      exact ⟨hreplacing, fun _ => by rw [hpcb]; rfl⟩

/-- **Serving a slot keeps the handles in order**, if no slot has lost its PCB. -/
theorem Ok.serve (h : srv.Ok) (htidy : ∀ j, Tidy (srv.connections j)) (k : Slot) (now : UInt32)
    (memory : Option MemorySamples) (a : Tcp.Answers) : Closed srv (srv.serve k now memory a) k := by
  unfold TcpSessionServer.serve
  split
  · exact ⟨h, htidy k, fun _ _ => rfl⟩
  next hoccupied =>
    have hoccupied' : (srv.connections k).occupied = true := by
      simpa only [Bool.not_eq_eq_eq_not, Bool.not_true, Bool.not_eq_false] using hoccupied
    split
    next hclosing => exact h.close hclosing (htidy k).replacing now a
    next hclosing =>
      have hclosing' : (srv.connections k).closing = false := Bool.eq_false_of_not_eq_true hclosing
      -- the slot has a session from here on
      have hconstruct : (if (srv.session k).isNone then srv.construct k else srv).Ok ∧
          (if (srv.session k).isNone then srv.construct k else srv).connections = srv.connections := by
        split
        next hnone =>
          have hnone' : srv.session k = none := Option.isNone_iff_eq_none.mp hnone
          obtain ⟨p, hp⟩ := Option.isSome_iff_exists.mp ((htidy k).pcb hoccupied')
          refine ⟨?_, rfl⟩
          have hinv := Inv.construct h hp hclosing' (htidy k).replacing (by rw [alive, hnone']; rfl)
          unfold Ok
          rw [construct_alive srv k hnone']
          exact hinv
        · exact ⟨h, rfl⟩
      obtain ⟨hok, hconn⟩ := hconstruct
      simp only
      set srv₁ := if (srv.session k).isNone then srv.construct k else srv with hsrv₁
      cases hs : srv₁.session k with
      | none =>
        refine ⟨hok, ?_, fun j _ => ?_⟩
        · rw [Option.elim_none, hconn]
          exact htidy k
        · rw [Option.elim_none, hconn]
      | some s =>
        have hpolled := hok.poll_session (by rw [hconn]; exact htidy) hs
          (by rw [hconn]; exact hclosing') (by rw [hconn]; exact hoccupied') now memory a
        rw [Option.elim_some]
        have hclosed := hpolled.ok.conclude hpolled.replacing now a
          (srv₁.poll_session k s now memory a).1
        refine ⟨hclosed.ok, hclosed.tidy, fun j hj => ?_⟩
        rw [hclosed.other j hj, hpolled.other j hj, hconn]

/-! ## The first loop of `poll` -/

/-- What a replaced socket has left is disposed of. -/
theorem Ok.dispose (h : srv.Ok) (k : Slot) :
    (srv.dispose k).Ok ∧ ((srv.dispose k).connections k).replacing = false ∧
      ∀ j, j ≠ k → (srv.dispose k).connections j = srv.connections j := by
  unfold TcpSessionServer.dispose
  split
  next hreplacing =>
    have hinv := Inv.settle h hreplacing
    have hconn : (((srv.destroy k).on k Tcp.Link.discard_packet).set k Connection.settled).connections
        = Function.update srv.connections k (srv.connections k).drained.settled := by
      simp only [set, on, relink, link, discard_packet_state, destroy_connections,
        Function.update_self, Function.update_idem]
    have htrace : (((srv.destroy k).on k Tcp.Link.discard_packet).set k Connection.settled).trace
        = freed_trace (destroyed_trace srv.trace k (srv.alive k)) (srv.connections k).packet := by
      simp only [set, on, relink, link, discard_packet_state, destroy_connections, destroy_trace]
    refine ⟨ok_of_eq hinv hconn htrace (destroy_alive ..), ?_, fun j hj => ?_⟩
    · change ((((srv.destroy k).on k Tcp.Link.discard_packet).set k Connection.settled).connections
        k).replacing = false
      rw [hconn, Function.update_self]
      rfl
    · change (((srv.destroy k).on k Tcp.Link.discard_packet).set k Connection.settled).connections j = _
      rw [hconn, Function.update_of_ne hj]
  next hreplacing => exact ⟨h, Bool.eq_false_of_not_eq_true hreplacing, fun _ _ => rfl⟩

theorem Ok.tidy (h : srv.Ok) (k : Slot) : Closed srv (srv.tidy k) k := by
  obtain ⟨hok, hreplacing, hother⟩ := h.dispose k
  unfold TcpSessionServer.tidy
  simp only
  split
  · exact hok.cleared k hother
  next hpcb =>
    refine ⟨hok, ⟨hreplacing, fun hoccupied => ?_⟩, hother⟩
    rw [hoccupied, Bool.true_and, Bool.not_eq_true, Option.isNone_eq_false_iff] at hpcb
    exact hpcb

/-! ## Whole runs -/

/-- A poll leaves no slot that is in use without its PCB. -/
theorem Ok.poll (h : srv.Ok) (now : UInt32) (memory : Option MemorySamples)
    (timeouts : List Callback) (answers : Slot → Tcp.Answers) :
    (srv.poll now memory timeouts answers).Ok ∧
      ∀ j, Tidy ((srv.poll now memory timeouts answers).connections j) := by
  have hcallbacks := h.callbacks timeouts
  have h0 := hcallbacks.tidy 0
  have h1 := h0.ok.tidy 1
  have htidy : ∀ j, Tidy ((((timeouts.foldl TcpSessionServer.callback srv).tidy 0).tidy 1).connections j) := by
    intro j
    fin_cases j
    · rw [show (((timeouts.foldl TcpSessionServer.callback srv).tidy 0).tidy 1).connections ⟨0, by decide⟩
        = _ from h1.other 0 (by decide)]
      exact h0.tidy
    · exact h1.tidy
  have h2 := h1.ok.serve htidy 0 now memory (answers 0)
  have htidy2 : ∀ j, Tidy (((((timeouts.foldl TcpSessionServer.callback srv).tidy 0).tidy 1).serve 0 now
      memory (answers 0)).connections j) := by
    intro j
    by_cases hj : j = 0
    · rw [hj]
      exact h2.tidy
    · rw [h2.other j hj]
      exact htidy j
  have h3 := h2.ok.serve htidy2 1 now memory (answers 1)
  refine ⟨h3.ok, fun j => ?_⟩
  by_cases hj : j = 1
  · rw [hj]
    exact h3.tidy
  · rw [show (srv.poll now memory timeouts answers).connections j = _ from h3.other j hj]
    exact htidy2 j

theorem Ok.step {ο : Type} (service : υ → ο → υ) (h : srv.Ok) (o : Op β ο) : (srv.step service o).Ok := by
  cases o with
  | begin identity clock created bound listened =>
    simp only [TcpSessionServer.step, TcpSessionServer.begin]
    split
    · exact h
    split
    · exact h
    split
    · exact h
    split
    · exact h
    · exact h
  | callback c => exact h.callback c
  | poll now memory timeouts answers => exact (h.poll now memory timeouts answers).1
  | stop => exact (h.clear 0).clear 1
  | backend b => exact h
  | service move => exact h

/-- **The invariant holds after every run.** -/
theorem ok_after {ο : Type} (service : υ → ο → υ) (b : β) (u : υ) (has_upload : Bool)
    (ops : List (Op β ο)) : (after service b u has_upload ops).Ok :=
  Runs.run_invariant _ (initial_ok b u has_upload) (fun _ o h => Ok.step service h o) ops

/-- What a poll leaves of a slot: it is free, or its PCB is alive, what is still to be read came
from that PCB, and the session in it, if any, was made for that PCB. In neither case does the
slot wait to be cleared for another connection. -/
inductive Settled (srv : TcpSessionServer β υ) (k : Slot) : Prop
  | free (occupied : (srv.connections k).occupied = false) (pcb : (srv.connections k).pcb = none)
      (packet : (srv.connections k).packet = none) (session : srv.session k = none)
      (replacing : (srv.connections k).replacing = false)
  | used (p : Pcb) (pcb : (srv.connections k).pcb = some p) (live : (account srv.trace p).life = .live)
      (packet : ∀ b, (srv.connections k).packet = some b → custody srv.trace b.handle = .server p k)
      (made : ∀ n q, tenant srv.trace k = some (n, q) → q = some p)
      (closing : (srv.connections k).closing = true → srv.session k = none)
      (replacing : (srv.connections k).replacing = false)

/-- **No poll leaves anything of a lost connection behind.** Whatever lwIP has called back and
answered before and in the poll, after it no slot waits to be cleared for another connection. -/
theorem poll_settles_slots {ο : Type} (service : υ → ο → υ) (b : β) (u : υ) (has_upload : Bool)
    (ops : List (Op β ο)) (now : UInt32) (memory : Option MemorySamples) (timeouts : List Callback)
    (answers : Slot → Tcp.Answers) (k : Slot) :
    Settled (after service b u has_upload (ops ++ [.poll now memory timeouts answers])) k := by
  have hbefore : (after service b u has_upload ops).Ok := ok_after service b u has_upload ops
  obtain ⟨hok, htidy⟩ := hbefore.poll now memory timeouts answers
  have hafter : after service b u has_upload (ops ++ [.poll now memory timeouts answers])
      = (after service b u has_upload ops).poll now memory timeouts answers := Runs.run_concat ..
  rw [hafter]
  generalize (after service b u has_upload ops).poll now memory timeouts answers = srv at hok htidy ⊢
  have hslot := hok.slots k
  have hreplacing := (htidy k).replacing
  cases hoccupied : (srv.connections k).occupied with
  | false =>
    obtain ⟨hpcb, hpacket, halive, -, -⟩ := hslot.empty hoccupied
    exact .free hoccupied hpcb hpacket (by simpa [alive] using halive) hreplacing
  | true =>
    obtain ⟨p, hpcb⟩ := Option.isSome_iff_exists.mp ((htidy k).pcb hoccupied)
    refine .used p hpcb (hslot.attached p hpcb).life ?_ (hslot.resident hreplacing p hpcb).made ?_
      hreplacing
    · intro x hx
      obtain ⟨q, hcustody, hsame⟩ := hslot.packet x hx
      rw [hsame hreplacing p hpcb] at hcustody
      exact hcustody
    · intro hclosing
      simpa [alive] using hslot.retired hclosing hreplacing

end TcpSessionServer

end Firmingo
