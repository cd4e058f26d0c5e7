/-
What a datagram may change: the lease table, and the buffers of lwIP.

The table changes only together with an answer that was delivered, or with a release or a
decline by the client that has the slot. Two tables are compared with the leases that were
over when the datagram came taken as empty (`live`), since the walk over the slots clears
those whatever the datagram says.

`receive_traced` is `receive` with the calls that allocate and free a buffer, in the order of
the source.
-/
import Firmingo.DhcpLeases

set_option autoImplicit false

open Octets

namespace Firmingo.Dhcp

/-! ## Buffers -/

inductive Pbuf
  | input
  | reply
  deriving DecidableEq, Repr

/-- The calls of lwIP that concern a buffer. -/
inductive PbufCall
  | alloc (size : ℕ) (got : Bool)
  | sendto
  | free (b : Pbuf)
  deriving DecidableEq, Repr

/-- `act`, with its calls. -/
def act_traced (d : Server) (now : ℕ) (a : Arrival) (p : List Byte) (o : Options) :
    Decision → (Server × List Event) × List PbufCall
  | .respond response chosen =>
    let packet := reply d p o response chosen
    if !a.alloc then (({ d with send_errors := d.send_errors + 1 }, []), [.alloc packet.length false])
    else
      let calls := [.alloc packet.length true, .sendto, .free .reply]
      if !a.send then (({ d with send_errors := d.send_errors + 1 }, []), calls)
      else
        (({ d with
            replies := d.replies + 1
            lease := commit d.lease now (client_of p o) response chosen },
          [.sent (client_of p o) packet (destination p response)]), calls)
  | quiet => (act d now a p o quiet, [])

/-- `receive`, with its calls; every path but that of a null buffer ends in `done`. -/
def receive_traced (d : Server) (now : ℕ) (a : Arrival) : (Server × List Event) × List PbufCall :=
  match a.datagram with
  | none => ((d, []), [])
  | some p =>
    let d := { d with received := d.received + 1 }
    match accepted d a p with
    | none => (({ d with ignored := d.ignored + 1 }, []), [.free .input])
    | some o =>
      let s := scan now (client_of p o) d.lease
      let d := { d with lease := s.lease }
      let done := act_traced d now a p o (decision d p o s.owned s.free_slot)
      (done.1, done.2 ++ [.free .input])

theorem act_traced_fst (d : Server) (now : ℕ) (a : Arrival) (p : List Byte) (o : Options)
    (decision : Decision) : (act_traced d now a p o decision).1 = act d now a p o decision := by
  cases decision with
  | respond response chosen =>
    unfold act_traced act
    cases a.alloc <;> cases a.send <;> rfl
  | ignored => rfl
  | release i => rfl
  | decline i => rfl

theorem receive_traced_fst (d : Server) (now : ℕ) (a : Arrival) :
    (receive_traced d now a).1 = receive d now a := by
  unfold receive_traced receive
  cases a.datagram with
  | none => rfl
  | some p =>
    simp only
    cases accepted { d with received := d.received + 1 } a p with
    | none => rfl
    | some o => exact act_traced_fst _ _ _ _ _ _

/-- The buffers taken for a reply. -/
def PbufCall.takes : PbufCall → Bool
  | .alloc _ got => got
  | _ => false

/-- Every pbuf that is allocated for a reply is freed, and the input is left to the caller. -/
theorem act_traced_calls (d : Server) (now : ℕ) (a : Arrival) (p : List Byte) (o : Options)
    (decision : Decision) :
    (act_traced d now a p o decision).2.count (.free .input) = 0 ∧
      (act_traced d now a p o decision).2.count (.free .reply)
        = (act_traced d now a p o decision).2.countP PbufCall.takes := by
  cases decision with
  | respond response chosen =>
    unfold act_traced
    cases a.alloc <;> cases a.send <;> exact ⟨rfl, rfl⟩
  | ignored => exact ⟨rfl, rfl⟩
  | release i => exact ⟨rfl, rfl⟩
  | decline i => exact ⟨rfl, rfl⟩

/-- The input is freed once, and every reply as often as it was allocated. -/
theorem receive_traced_calls (d : Server) (now : ℕ) {a : Arrival} {p : List Byte}
    (hp : a.datagram = some p) :
    (receive_traced d now a).2.count (.free .input) = 1 ∧
      (receive_traced d now a).2.count (.free .reply)
        = (receive_traced d now a).2.countP PbufCall.takes := by
  unfold receive_traced
  rw [hp]
  simp only
  split
  · exact ⟨rfl, rfl⟩
  next o ho =>
  obtain ⟨hinput, hreply⟩ := act_traced_calls
    { d with received := d.received + 1, lease := (scan now (client_of p o) d.lease).lease } now a p o
    (decision { d with
      received := d.received + 1
      lease := (scan now (client_of p o) d.lease).lease } p o
      (scan now (client_of p o) d.lease).owned (scan now (client_of p o) d.lease).free_slot)
  rw [List.count_append, List.count_append, List.countP_append, hinput, hreply]
  exact ⟨rfl, rfl⟩

/-! ## Tables -/

/-- The table as it is at a time: a lease that is over is no lease. -/
def live (now : ℕ) (lease : Table) : Table := fun i => expire now (lease i)

theorem expire_empty (now : ℕ) : expire now {} = {} := rfl

theorem live_live (now : ℕ) (lease : Table) : live now (live now lease) = live now lease := by
  funext i
  change expire now (expire now (lease i)) = expire now (lease i)
  rcases expire_cases now (lease i) with h | h
  · rw [h, expire_empty]
  · rw [h, h]

/-- A lease of this moment is not over. -/
theorem expire_fresh (now : ℕ) (client : Client) (state : LeaseState) {duration : ℕ}
    (h : 0 < duration) : expire now ⟨client, state, now, duration⟩ = ⟨client, state, now, duration⟩ :=
  expire_eq (le_refl now) (Nat.lt_add_of_pos_right h)

theorem live_update_of_ne {now : ℕ} {lease : Table} {i j : Fin 8} (h : j ≠ i) (l : Lease) :
    live now (Function.update (live now lease) i l) j = live now lease j := by
  change expire now (Function.update (live now lease) i l j) = _
  rw [Function.update_of_ne h]
  exact congrFun (live_live now lease) j

theorem live_update_self (now : ℕ) (lease : Table) (i : Fin 8) (l : Lease) :
    live now (Function.update (live now lease) i l) i = expire now l := by
  change expire now (Function.update (live now lease) i l i) = _
  rw [Function.update_self]

/-! ## What was decided is done -/

section Act

variable (d : Server) (now : ℕ) (a : Arrival) (p : List Byte) (o : Options) (decision : Decision)

/-- A response is sent and committed, or counted as an error without a trace in the table. -/
theorem act_respond (response : Response) (chosen : Option (Fin 8)) :
    act d now a p o (.respond response chosen) = ({ d with send_errors := d.send_errors + 1 }, []) ∨
      act d now a p o (.respond response chosen) =
        ({ d with
            replies := d.replies + 1
            lease := commit d.lease now (client_of p o) response chosen },
          [.sent (client_of p o) (reply d p o response chosen) (destination p response)]) := by
  rw [act]
  split
  · exact .inl rfl
  · exact .inr rfl

theorem act_ignored (h : (act d now a p o decision).1.ignored ≠ d.ignored) :
    (act d now a p o decision).1.lease = d.lease := by
  cases decision with
  | ignored => rfl
  | release i => exact absurd rfl h
  | decline i => exact absurd rfl h
  | respond response chosen =>
    rcases act_respond d now a p o response chosen with hact | hact
    · rw [hact]
    · rw [hact] at h
      exact absurd rfl h

theorem act_unsent (h : (act d now a p o decision).1.send_errors ≠ d.send_errors) :
    (act d now a p o decision).1.lease = d.lease := by
  cases decision with
  | ignored => rfl
  | release i => exact absurd rfl h
  | decline i => exact absurd rfl h
  | respond response chosen =>
    rcases act_respond d now a p o response chosen with hact | hact
    · rw [hact]
    · rw [hact] at h
      exact absurd rfl h

/-- What is sent is the reply that was decided, and its lease has been committed. -/
theorem act_sent {client : Client} {packet : List Byte} {dest : Ip4}
    (h : Event.sent client packet dest ∈ (act d now a p o decision).2) :
    ∃ response chosen, decision = .respond response chosen ∧ packet = reply d p o response chosen ∧
      (act d now a p o decision).1.lease = commit d.lease now (client_of p o) response chosen := by
  cases decision with
  | ignored => cases h
  | release i => simp [act] at h
  | decline i => simp [act] at h
  | respond response chosen =>
    rcases act_respond d now a p o response chosen with hact | hact
    · rw [hact] at h
      cases h
    · rw [hact] at h ⊢
      simp only [List.mem_singleton, Event.sent.injEq] at h
      exact ⟨response, chosen, rfl, h.2.1, rfl⟩

end Act

/-! ## The frame of a datagram -/

/-- The slot of a client: the last one that carries it, should a table have several. -/
def OwnSlot (lease : Table) (client : Client) (i : Fin 8) : Prop :=
  same_client (lease i) client = true ∧ ∀ j, i < j → same_client (lease j) client = false

/-- A RELEASE by the client that has the slot: it names the server and the address of the slot. -/
structure ValidRelease (d : Server) (now : ℕ) (p : List Byte) (o : Options) (i : Fin 8) : Prop where
  type : o.type = 7
  server : o.server ≠ none
  requested : o.requested = none
  own : OwnSlot (live now d.lease) (client_of p o) i
  names : ciaddr p = address d i

/-- A DECLINE by the client that has the slot. -/
structure ValidDecline (d : Server) (now : ℕ) (p : List Byte) (o : Options) (i : Fin 8) : Prop where
  type : o.type = 4
  server : o.server ≠ none
  own : OwnSlot (live now d.lease) (client_of p o) i
  names : o.requested = some (address d i)

/-- An address has a slot if it is one of the eight of the pool. -/
theorem slot_eq_some_iff {d : Server} {ip : Ip4} {i : Fin 8} :
    slot d ip = some i ↔ ip = address d i := by
  constructor
  · intro h
    unfold slot at h
    split at h
    · next hip =>
      obtain ⟨ha, hb, hc, hlow, hhigh⟩ := hip
      obtain ⟨a, b, c, e⟩ := ip
      cases h
      have he : UInt8.ofNat (base_ip + (e.toNat - base_ip)) = e := by
        rw [Nat.add_sub_cancel' hlow]
        exact UInt8.ofNat_toNat
      rw [address, pool, Ip4.mk.injEq]
      exact ⟨ha, hb, hc, he.symm⟩
    · cases h
  · rintro rfl
    exact slot_address d i

/-- The walk finds the slot of the client. -/
theorem scan_owned_iff (now : ℕ) (client : Client) (lease : Table) (i : Fin 8) :
    (scan now client lease).owned = some i ↔ OwnSlot (live now lease) client i := by
  have hs := scanned now client lease
  constructor
  · intro h
    exact ⟨(hs.owned i h).2, fun j hj => hs.last i h j (List.mem_finRange j) hj⟩
  · rintro ⟨hsame, hlast⟩
    cases howned : (scan now client lease).owned with
    | none =>
      have hno : same_client (live now lease i) client = false := hs.unowned howned i (List.mem_finRange i)
      rw [hsame] at hno
      cases hno
    | some j =>
      have hj : same_client (live now lease j) client = true := (hs.owned j howned).2
      rcases lt_trichotomy i j with hlt | heq | hgt
      · rw [hlast j hlt] at hj
        cases hj
      · rw [heq]
      · have hno : same_client (live now lease i) client = false :=
          hs.last j howned i (List.mem_finRange i) hgt
        rw [hsame] at hno
        cases hno

/-- What a datagram may change. -/
structure Framed (d : Server) (now : ℕ) (a : Arrival) (p : List Byte) (after : Server)
    (events : List Event) (calls : List PbufCall) : Prop where
  ignored : after.ignored ≠ d.ignored → live now after.lease = live now d.lease
  unsent : after.send_errors ≠ d.send_errors → live now after.lease = live now d.lease
  nak : ∀ client packet dest, Event.sent client packet dest ∈ events →
    message_type packet = Response.nak.code → live now after.lease = live now d.lease
  inform : ∀ o, accepted d a p = some o → o.type = 8 → live now after.lease = live now d.lease
  given : ∀ o client packet dest, accepted d a p = some o → Event.sent client packet dest ∈ events →
    (message_type packet = Response.offer.code ∨ message_type packet = Response.ack.code ∧ o.type ≠ 8) →
    ∃ i, given packet = address d i ∧ same_client (live now after.lease i) (client_of p o) = true ∧
      ∀ j ≠ i, live now after.lease j = live now d.lease j
  ended : ∀ o i, accepted d a p = some o → ValidRelease d now p o i ∨ ValidDecline d now p o i →
    live now after.lease i ≠ live now d.lease i ∧ ∀ j ≠ i, live now after.lease j = live now d.lease j
  /-- There is no other case. -/
  covered : after.ignored = d.ignored + 1 ∨ after.send_errors = d.send_errors + 1 ∨
    (∃ client packet dest, Event.sent client packet dest ∈ events) ∨
    ∃ o i, accepted d a p = some o ∧ (ValidRelease d now p o i ∨ ValidDecline d now p o i)
  input_freed : calls.count (.free .input) = 1
  replies_freed : calls.count (.free .reply) = calls.countP PbufCall.takes

section Frame

variable (d : Server) (now : ℕ) (a : Arrival) (p : List Byte) (o : Options)

/-- The server when the decision is made. -/
def walked : Server := { d with received := d.received + 1, lease := live now d.lease }

/-- What is decided about a datagram. -/
def decided : Decision :=
  decision (walked d now) p o (scan now (client_of p o) d.lease).owned
    (scan now (client_of p o) d.lease).free_slot

theorem receive_accepted {a : Arrival} (hp : a.datagram = some p) (ho : accepted d a p = some o) :
    receive d now a = act (walked d now) now a p o (decided d now p o) := by
  have hlease := scan_lease now (client_of p o) d.lease
  have ho' : accepted { d with received := d.received + 1 } a p = some o := ho
  unfold receive
  rw [hp]
  simp only [ho', hlease]
  rfl

theorem receive_refused {a : Arrival} (hp : a.datagram = some p) (ho : accepted d a p = none) :
    receive d now a = ({ d with received := d.received + 1, ignored := d.ignored + 1 }, []) := by
  have ho' : accepted { d with received := d.received + 1 } a p = none := ho
  unfold receive
  rw [hp]
  simp only [ho']

theorem decided_release {i : Fin 8} (h : ValidRelease d now p o i) : decided d now p o = .release i := by
  have howned := (scan_owned_iff now (client_of p o) d.lease i).mpr h.own
  have hslot : slot (walked d now) (ciaddr p) = some i := slot_eq_some_iff.mpr h.names
  have hserver : o.server.isNone = false := by
    cases hs : o.server with
    | none => exact absurd hs h.server
    | some ip => rfl
  simp [decided, decision, h.type, release, howned, hslot, hserver, h.requested]

theorem decided_decline {i : Fin 8} (h : ValidDecline d now p o i) : decided d now p o = .decline i := by
  have howned := (scan_owned_iff now (client_of p o) d.lease i).mpr h.own
  have hslot : slot (walked d now) (address d i) = some i := slot_eq_some_iff.mpr rfl
  have hserver : o.server.isNone = false := by
    cases hs : o.server with
    | none => exact absurd hs h.server
    | some ip => rfl
  simp [decided, decision, h.type, decline, howned, hslot, hserver, h.names]

/-- A release or a decline changes the one slot. -/
theorem act_ended {i : Fin 8} (h : ValidRelease d now p o i ∨ ValidDecline d now p o i) :
    live now (act (walked d now) now a p o (decided d now p o)).1.lease i ≠ live now d.lease i ∧
      ∀ j ≠ i, live now (act (walked d now) now a p o (decided d now p o)).1.lease j
        = live now d.lease j := by
  rcases h with h | h
  · rw [decided_release d now p o h]
    refine ⟨?_, fun j hj => live_update_of_ne hj {}⟩
    intro heq
    have hcleared : live now d.lease i = {} := by
      rw [← heq]
      exact live_update_self now d.lease i {}
    have hsame := h.own.1
    rw [hcleared] at hsame
    cases hsame
  · rw [decided_decline d now p o h]
    refine ⟨?_, fun j hj => live_update_of_ne hj _⟩
    intro heq
    have hdeclined : (live now d.lease i).state = .declined := by
      rw [← heq]
      change (live now (Function.update (live now d.lease) i _) i).state = .declined
      rw [live_update_self, expire_fresh now _ .declined (by decide : 0 < decline_ms)]
    have hsame := (same_client_iff.mp h.own.1).1
    rw [hdeclined] at hsame
    rcases hsame with hno | hno
    · cases hno
    · cases hno

/-- An answer that gives no address leaves the table. -/
theorem commit_nothing (lease : Table) (client : Client) {response : Response} {chosen : Option (Fin 8)}
    (h : response = .nak ∨ chosen = none) : commit lease now client response chosen = lease := by
  rcases h with rfl | rfl
  · rfl
  · cases response <;> rfl

/-- An INFORM is answered without a lease. -/
theorem act_inform (h : o.type = 8) :
    (act (walked d now) now a p o (decided d now p o)).1.lease = live now d.lease := by
  have hdecided : decided d now p o = .ignored ∨ decided d now p o = .respond .ack none := by
    rw [decided, decision, h]
    simp only [inform, show ((8 : Byte) = 1) = False by decide, show ((8 : Byte) = 3) = False by decide,
      show ((8 : Byte) = 7) = False by decide, show ((8 : Byte) = 4) = False by decide, if_false, if_true]
    split
    · exact .inl rfl
    · exact .inr rfl
  rcases hdecided with hd | hd
  · rw [hd]
    rfl
  · rw [hd]
    rcases act_respond (walked d now) now a p o .ack none with hact | hact
    · rw [hact]
      rfl
    · rw [hact]
      exact @commit_nothing now (live now d.lease) (client_of p o) .ack none (.inr rfl)

/-- The slot of the client, or a free one if there is none: what an OFFER gives. -/
theorem commit_given {client : Client} {response : Response} {i : Fin 8} (hgives : response ≠ .nak)
    (hbound : (live now d.lease i).state = .bound → same_client (live now d.lease i) client = true) :
    same_client (live now (commit (live now d.lease) now client response (some i)) i) client = true ∧
      ∀ j ≠ i, live now (commit (live now d.lease) now client response (some i)) j
        = live now d.lease j := by
  have hother : ∀ l, ∀ j ≠ i, live now (Function.update (live now d.lease) i l) j = live now d.lease j :=
    fun l j hj => live_update_of_ne hj l
  cases response with
  | nak => exact absurd rfl hgives
  | ack =>
    refine ⟨?_, hother _⟩
    change same_client (live now (Function.update (live now d.lease) i _) i) client = true
    rw [live_update_self, expire_fresh now client .bound (by decide : 0 < lease_ms)]
    exact same_client_iff.mpr ⟨.inr rfl, rfl⟩
  | offer =>
    by_cases hb : (live now d.lease i).state = .bound
    · have hcommit : commit (live now d.lease) now client .offer (some i) = live now d.lease := if_pos hb
      rw [hcommit, live_live]
      exact ⟨hbound hb, fun _ _ => rfl⟩
    · have hcommit : commit (live now d.lease) now client .offer (some i)
          = Function.update (live now d.lease) i ⟨client, .offered, now, offer_ms⟩ := if_neg hb
      rw [hcommit, live_update_self, expire_fresh now client .offered (by decide : 0 < offer_ms)]
      exact ⟨same_client_iff.mpr ⟨.inl rfl, rfl⟩, hother _⟩

/-- An OFFER, or the ACK of a REQUEST, is for a slot that carries the client from then on. -/
theorem act_given {response : Response} {chosen : Option (Fin 8)}
    (hdecided : decided d now p o = .respond response chosen) (hgives : response ≠ .nak)
    (htype : response = .ack → o.type ≠ 8) :
    ∃ i, chosen = some i ∧
      ((live now d.lease i).state = .bound → same_client (live now d.lease i) (client_of p o) = true) := by
  have hs := scanned now (client_of p o) d.lease
  rcases decision_cases (walked d now) p o (scan now (client_of p o) d.lease).owned
    (scan now (client_of p o) d.lease).free_slot with h | ⟨i, -, -, h⟩ | ⟨i, -, -, h⟩ | ⟨_, h⟩ |
    ⟨hinform, h⟩ | ⟨i, -, hi, h⟩ | ⟨i, hi, -, h⟩
  · cases h.symm.trans hdecided
  · cases h.symm.trans hdecided
  · cases h.symm.trans hdecided
  · cases h.symm.trans hdecided
    exact absurd rfl hgives
  · cases h.symm.trans hdecided
    exact absurd hinform (htype rfl)
  · cases h.symm.trans hdecided
    refine ⟨i, rfl, fun hb => ?_⟩
    rcases hi with hi | ⟨-, hfree⟩
    · exact (hs.owned i hi).2
    · exact absurd (hb.symm.trans (hs.free_slot i hfree)) (by decide)
  · cases h.symm.trans hdecided
    exact ⟨i, rfl, fun _ => (hs.owned i hi).2⟩

/-- A datagram is ignored, answered, or ends a lease. -/
theorem act_covered (ho : accepted d a p = some o) :
    (act (walked d now) now a p o (decided d now p o)).1.ignored = d.ignored + 1 ∨
      (act (walked d now) now a p o (decided d now p o)).1.send_errors = d.send_errors + 1 ∨
      (∃ client packet dest, Event.sent client packet dest
        ∈ (act (walked d now) now a p o (decided d now p o)).2) ∨
      ∃ o i, accepted d a p = some o ∧ (ValidRelease d now p o i ∨ ValidDecline d now p o i) := by
  have hanswer : ∀ response chosen, decided d now p o = .respond response chosen →
      (act (walked d now) now a p o (decided d now p o)).1.send_errors = d.send_errors + 1 ∨
        ∃ client packet dest, Event.sent client packet dest
          ∈ (act (walked d now) now a p o (decided d now p o)).2 := by
    intro response chosen h
    rw [h]
    rcases act_respond (walked d now) now a p o response chosen with hact | hact
    · rw [hact]
      exact .inl rfl
    · rw [hact]
      exact .inr ⟨_, _, _, List.mem_singleton.mpr rfl⟩
  have hown : ∀ i, (scan now (client_of p o) d.lease).owned = some i →
      OwnSlot (live now d.lease) (client_of p o) i :=
    fun i hi => (scan_owned_iff now (client_of p o) d.lease i).mp hi
  rcases decision_cases (walked d now) p o (scan now (client_of p o) d.lease).owned
    (scan now (client_of p o) d.lease).free_slot with h | ⟨i, hi, ⟨htype, hserver, hrequested, hslot⟩, -⟩ |
    ⟨i, hi, ⟨htype, hserver, ip, hrequested, hslot⟩, -⟩ | ⟨_, h⟩ | ⟨-, h⟩ | ⟨i, -, -, h⟩ | ⟨i, -, -, h⟩
  · refine .inl ?_
    rw [decided, h]
    rfl
  · have hnames : ciaddr p = address d i := slot_eq_some_iff.mp hslot
    exact .inr (.inr (.inr ⟨o, i, ho, .inl ⟨htype, hserver, hrequested, hown i hi, hnames⟩⟩))
  · have hnames : ip = address d i := slot_eq_some_iff.mp hslot
    rw [hnames] at hrequested
    exact .inr (.inr (.inr ⟨o, i, ho, .inr ⟨htype, hserver, hown i hi, hrequested⟩⟩))
  all_goals
    rcases hanswer _ _ h with hfailed | hsent
    · exact .inr (.inl hfailed)
    · exact .inr (.inr (.inl hsent))

end Frame

/-- **The table changes only with a delivered answer**, and every buffer is freed once. -/
theorem table_changes_with_answer (d : Server) (now : ℕ) (a : Arrival) (p : List Byte) :
    Framed d now { a with datagram := some p } p
      (receive_traced d now { a with datagram := some p }).1.1
      (receive_traced d now { a with datagram := some p }).1.2
      (receive_traced d now { a with datagram := some p }).2 := by
  set b : Arrival := { a with datagram := some p } with hb
  have hp : b.datagram = some p := rfl
  obtain ⟨hinput, hreplies⟩ := receive_traced_calls d now hp
  rw [receive_traced_fst]
  cases ho : accepted d b p with
  | none =>
    rw [receive_refused d now p hp ho]
    refine ⟨fun _ => rfl, fun _ => rfl, ?_, fun _ _ _ => rfl, ?_, ?_, .inl rfl, hinput, hreplies⟩
    · intro client packet dest hsent
      cases hsent
    · intro o client packet dest _ hsent
      cases hsent
    · intro o i ho'
      cases ho.symm.trans ho'
  | some o =>
    have hlen := accepted_length ho
    rw [receive_accepted d now p o hp ho]
    refine ⟨?_, ?_, ?_, ?_, ?_, ?_, ?_, hinput, hreplies⟩
    · intro h
      rw [act_ignored _ _ _ _ _ _ h]
      exact live_live now d.lease
    · intro h
      rw [act_unsent _ _ _ _ _ _ h]
      exact live_live now d.lease
    · intro client packet dest hsent htype
      obtain ⟨response, chosen, -, rfl, hlease⟩ := act_sent _ _ _ _ _ _ hsent
      rw [message_type_reply _ hlen] at htype
      rw [hlease, commit_nothing now _ _ (.inl (Response.code_inj htype))]
      exact live_live now d.lease
    · intro o' ho' htype
      cases ho.symm.trans ho'
      rw [act_inform d now b p o htype]
      exact live_live now d.lease
    · intro o' client packet dest ho' hsent htype
      cases ho.symm.trans ho'
      obtain ⟨response, chosen, hdecided, rfl, hlease⟩ := act_sent _ _ _ _ _ _ hsent
      rw [message_type_reply _ hlen] at htype
      -- only an offer or an acknowledged lease is about a slot
      have hgives : response ≠ .nak := by
        rintro rfl
        rcases htype with htype | ⟨htype, -⟩
        · cases Response.code_inj htype
        · cases Response.code_inj htype
      have hlease8 : response = .ack → o.type ≠ 8 := by
        rintro rfl
        rcases htype with htype | ⟨-, htype⟩
        · cases Response.code_inj htype
        · exact htype
      obtain ⟨i, rfl, hbound⟩ := act_given d now p o hdecided hgives hlease8
      obtain ⟨hcarries, hothers⟩ := @commit_given d now (client_of p o) response i hgives hbound
      refine ⟨i, ?_, by rw [hlease]; exact hcarries, by rw [hlease]; exact hothers⟩
      rw [given_reply _ hlen]
      cases response with
      | nak => exact absurd rfl hgives
      | offer => rfl
      | ack => rfl
    · intro o' i ho' h
      cases ho.symm.trans ho'
      exact act_ended d now b p o h
    · exact act_covered d now b p o ho

end Firmingo.Dhcp
