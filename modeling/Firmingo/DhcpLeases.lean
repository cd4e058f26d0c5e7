/-
What a lease and an offer promise.

`Received` says everything one datagram can do to the table and what can be seen of it. A
slot is `Held` for a client until some time if its lease carries the client and does not end
before; no datagram changes that before the time has come, except a release or a decline by
that client, and in the meantime nobody else is given the address. An ACK holds its slot for
the whole lease.

An OFFER holds its slot for 30 seconds, with one exception: it leaves a binding alone, and
if the binding has less than 30 seconds to run, nothing keeps the slot after it.
-/
import Firmingo.Dhcp

set_option autoImplicit false

open Octets

namespace Firmingo.Dhcp

/-! ## What can be seen of a reply -/

theorem length_field {p : List Byte} {i n : ℕ} (h : i + n ≤ p.length) : (field p i n).length = n := by
  rw [field, List.length_take, List.length_drop]
  omega

/-- Reading a byte of a list behind a front of known length. -/
theorem getD_behind (front rest : List Byte) {n : ℕ} (hn : front.length = n) (i : ℕ) :
    (front ++ rest).getD (n + i) 0 = rest.getD i 0 := by
  rw [List.getD_append_right _ _ _ _ (by omega), hn, Nat.add_sub_cancel_left]

theorem Response.code_inj {r r' : Response} (h : r.code = r'.code) : r = r' := by
  cases r <;> cases r' <;> first | rfl | exact absurd h (by decide)

section Reply

variable (d : Server) {p : List Byte} (hp : options_offset + 4 ≤ p.length) (o : Options)
  (response : Response) (chosen : Option (Fin 8))
include hp

/-- The fields in front of the address that is given. -/
theorem length_front : (([2, 1, 6, 0] : List Byte) ++ field p 4 4 ++ [0, 0] ++ field p 10 2
    ++ (if response ≠ Response.nak then field p 12 4 else List.replicate 4 0)).length = 16 := by
  have hlen : options_offset + 4 = 244 := rfl
  have hci : (if response ≠ .nak then field p 12 4 else List.replicate 4 0).length = 4 := by
    by_cases h : response ≠ .nak
    · rw [if_pos h]
      exact length_field (by omega)
    · rw [if_neg h]
      exact List.length_replicate
  have hxid : (field p 4 4).length = 4 := length_field (by omega)
  have hflags : (field p 10 2).length = 2 := length_field (by omega)
  simp only [List.length_append, List.length_cons, List.length_nil, hci, hxid, hflags]

theorem length_fixed_fields : (fixed_fields d p response chosen).length = options_offset := by
  have hlen : options_offset + 4 = 244 := rfl
  have hfront := length_front hp response
  have hardware : (field p 28 16).length = 16 := length_field (by omega)
  rw [fixed_fields, List.length_append, hfront]
  simp only [List.length_append, List.length_cons, List.length_nil, List.length_replicate, hardware,
    Ip4.bytes, cookie, options_offset]

/-- **The message type of a reply is the response.** -/
theorem message_type_reply : message_type (reply d p o response chosen) = response.code := by
  unfold message_type reply
  refine (getD_behind _ _ (length_fixed_fields d hp response chosen) 2).trans ?_
  simp only [reply_options, option, List.append_assoc, List.cons_append, List.getD_cons_succ,
    List.getD_cons_zero]

/-- **The address a reply gives is the chosen one.** -/
theorem given_reply : given (reply d p o response chosen) = yiaddr d response chosen := by
  have hread : ∀ i, (reply d p o response chosen).getD (16 + i) 0
      = ((yiaddr d response chosen).bytes ++ ((List.replicate 8 0 ++ field p 28 16
        ++ List.replicate 192 0 ++ cookie) ++ (reply_options d o response chosen
        ++ List.replicate (300 - (options_offset + (reply_options d o response chosen).length)) 0))).getD
          i 0 := by
    intro i
    refine Eq.trans ?_ (getD_behind _ _ (length_front hp response) i)
    rw [reply, fixed_fields]
    simp only [List.append_assoc]
  have h0 := hread 0
  have h1 := hread 1
  have h2 := hread 2
  have h3 := hread 3
  simp only [Ip4.bytes, List.cons_append, List.getD_cons_succ, List.getD_cons_zero] at h0 h1 h2 h3
  unfold given ip4_at
  rw [h0, h1, h2, h3]

end Reply

/-- The event is an OFFER of the address to the client. -/
def Event.offers (e : Event) (client : Client) (ip : Ip4) : Prop :=
  ∃ packet dest, e = .sent client packet dest ∧ message_type packet = Response.offer.code ∧ given packet = ip

/-- The event is an ACK of the address to the client. The ACK of an INFORM gives 0.0.0.0. -/
def Event.acks (e : Event) (client : Client) (ip : Ip4) : Prop :=
  ∃ packet dest, e = .sent client packet dest ∧ message_type packet = Response.ack.code ∧ given packet = ip

def Event.gives (e : Event) (client : Client) (ip : Ip4) : Prop := e.offers client ip ∨ e.acks client ip

/-- The client gives the address back. -/
def Event.ends (e : Event) (client : Client) (ip : Ip4) : Prop :=
  e = .released client ip ∨ e = .declined client ip

theorem base_ip_ne_zero (i : Fin 8) : UInt8.ofNat (base_ip + i) ≠ 0 := by
  revert i
  decide

theorem address_ne_zero (d : Server) (i : Fin 8) : address d i ≠ ⟨0, 0, 0, 0⟩ := by
  intro h
  exact base_ip_ne_zero i (congrArg Ip4.d h)

theorem address_inj {d : Server} {i j : Fin 8} (h : address d i = address d j) : i = j := by
  have hd : UInt8.ofNat (base_ip + i) = UInt8.ofNat (base_ip + j) := congrArg Ip4.d h
  clear h
  revert i j
  decide

theorem address_of_ip {d d' : Server} (h : d'.ip = d.ip) (i : Fin 8) : address d' i = address d i := by
  rw [address, h, address]

/-! ## The loop over the slots -/

section Scan

variable (now : ℕ) (client : Client) (lease : Table)

/-- What the loop has found after some slots. -/
structure Scanned (done : List (Fin 8)) (s : Scan) : Prop where
  table : ∀ i, s.lease i = if i ∈ done then expire now (lease i) else lease i
  owned : ∀ i, s.owned = some i → i ∈ done ∧ same_client (expire now (lease i)) client = true
  unowned : s.owned = none → ∀ i ∈ done, same_client (expire now (lease i)) client = false
  free_slot : ∀ i, s.free_slot = some i → (expire now (lease i)).state = .free
  last : ∀ i, s.owned = some i → ∀ j ∈ done, i < j → same_client (expire now (lease j)) client = false

/-- The scan, slot by slot: it ends with the last slot of the client, and with a free one. -/
theorem scanned_foldl (done : List (Fin 8)) (hsorted : done.Pairwise (· < ·)) :
    Scanned now client lease done (done.foldl (scan_step now client) { lease := lease }) := by
  induction done using List.reverseRecOn with
  | nil => exact ⟨by simp, by simp, by simp, by simp, by simp⟩
  | append_singleton done i ih =>
    obtain ⟨hdone, _, hnew⟩ := List.pairwise_append.mp hsorted
    -- the slots come in order, so the slot at hand is later than all that were scanned
    have hbelow : ∀ j ∈ done, j < i := fun j hj => hnew j hj i (List.mem_singleton.mpr rfl)
    have hi : i ∉ done := fun hmem => lt_irrefl i (hbelow i hmem)
    have h := ih hdone
    rw [List.foldl_append, List.foldl_cons, List.foldl_nil]
    generalize done.foldl (scan_step now client) { lease := lease } = s at h ⊢
    have hl : s.lease i = lease i := by rw [h.table, if_neg hi]
    refine ⟨?_, ?_, ?_, ?_, ?_⟩
    · intro j
      by_cases hj : j = i
      · subst hj
        simp [scan_step, hl]
      · simp [scan_step, h.table, hj]
    · intro j
      simp only [scan_step, hl]
      by_cases hc : same_client (expire now (lease i)) client = true
      · rw [if_pos hc]
        rintro ⟨⟩
        exact ⟨by simp, hc⟩
      · rw [if_neg hc]
        intro hj
        obtain ⟨hmem, hsame⟩ := h.owned j hj
        exact ⟨List.mem_append_left _ hmem, hsame⟩
    · simp only [scan_step, hl]
      by_cases hc : same_client (expire now (lease i)) client = true
      · rw [if_pos hc]
        intro hno
        cases hno
      · rw [if_neg hc]
        intro hno j hj
        rcases List.mem_append.mp hj with hj | hj
        · exact h.unowned hno j hj
        · rw [List.mem_singleton.mp hj]
          simpa using hc
    · intro j
      simp only [scan_step, hl]
      split
      · next hfree =>
        rintro ⟨⟩
        simp only [Bool.and_eq_true, decide_eq_true_eq] at hfree
        exact hfree.1
      · exact h.free_slot j
    · intro j
      simp only [scan_step, hl]
      by_cases hc : same_client (expire now (lease i)) client = true
      · rw [if_pos hc]
        rintro ⟨⟩ k hk hlt
        rcases List.mem_append.mp hk with hk | hk
        · exact absurd (hbelow k hk) (not_lt.mpr hlt.le)
        · exact absurd hlt (by rw [List.mem_singleton.mp hk]; exact lt_irrefl i)
      · rw [if_neg hc]
        intro hj k hk hlt
        rcases List.mem_append.mp hk with hk | hk
        · exact h.last j hj k hk hlt
        · rw [List.mem_singleton.mp hk]
          simpa using hc

theorem scanned : Scanned now client lease (List.finRange 8) (scan now client lease) :=
  scanned_foldl now client lease _ (by decide)

theorem scan_lease : (scan now client lease).lease = fun i => expire now (lease i) := by
  funext i
  rw [(scanned now client lease).table, if_pos (List.mem_finRange i)]

end Scan

/-! ## What one datagram can do -/

/-- Everything a datagram can do to the table, and what is seen of it. -/
inductive Received (d : Server) (now : ℕ) (a : Arrival) : Table → List Event → Prop
  | untouched : Received d now a d.lease []
  | quiet : Received d now a (fun i => expire now (d.lease i)) []
  | released (client : Client) (i : Fin 8) (owned : same_client (expire now (d.lease i)) client = true) :
      Received d now a (Function.update (fun i => expire now (d.lease i)) i {})
        [.released client (address d i)]
  | declined (client : Client) (i : Fin 8) (owned : same_client (expire now (d.lease i)) client = true) :
      Received d now a (Function.update (fun i => expire now (d.lease i)) i
        { expire now (d.lease i) with state := .declined, since_ms := now, duration_ms := decline_ms })
        [.declined client (address d i)]
  /-- A NAK, or the ACK of an INFORM. -/
  | answered (e : Event) (nothing : ∀ client ip, e.gives client ip → ip = ⟨0, 0, 0, 0⟩)
      (unended : ∀ client ip, ¬ e.ends client ip) (refused : ∀ client ip, ¬ e.offers client ip) :
      Received d now a (fun i => expire now (d.lease i)) [e]
  | offered (p : List Byte) (o : Options) (datagram : a.datagram = some p)
      (valid : accepted d a p = some o) (discovers : o.type = 1) (client : Client)
      (sender : client = client_of p o) (i : Fin 8) (e : Event) (offers : e.offers client (address d i))
      (only : ∀ client' ip, e.gives client' ip → client' = client ∧ ip = address d i)
      (unended : ∀ client ip, ¬ e.ends client ip)
      (chosen : same_client (expire now (d.lease i)) client = true ∨
        (expire now (d.lease i)).state = .free ∧
          ∀ j, same_client (expire now (d.lease j)) client = false) :
      Received d now a (commit (fun i => expire now (d.lease i)) now client .offer (some i)) [e]
  | acked (client : Client) (i : Fin 8) (e : Event) (acks : e.acks client (address d i))
      (only : ∀ client' ip, e.gives client' ip → client' = client ∧ ip = address d i)
      (unended : ∀ client ip, ¬ e.ends client ip)
      (owned : same_client (expire now (d.lease i)) client = true) :
      Received d now a (commit (fun i => expire now (d.lease i)) now client .ack (some i)) [e]

/-- How a decision depends on the slot of the client and on the free slot. -/
theorem decision_cases (d : Server) (p : List Byte) (o : Options) (owned free_slot : Option (Fin 8)) :
    decision d p o owned free_slot = .ignored ∨
    (∃ i, owned = some i ∧ (o.type = 7 ∧ o.server ≠ none ∧ o.requested = none
      ∧ slot d (ciaddr p) = some i) ∧ decision d p o owned free_slot = .release i) ∨
    (∃ i, owned = some i ∧ (o.type = 4 ∧ o.server ≠ none ∧ ∃ ip, o.requested = some ip
      ∧ slot d ip = some i) ∧ decision d p o owned free_slot = .decline i) ∨
    (∃ chosen, decision d p o owned free_slot = .respond .nak chosen) ∨
    (o.type = 8 ∧ decision d p o owned free_slot = .respond .ack none) ∨
    (∃ i, o.type = 1 ∧ (owned = some i ∨ owned = none ∧ free_slot = some i) ∧
      decision d p o owned free_slot = .respond .offer (some i)) ∨
    ∃ i, owned = some i ∧ o.type = 3 ∧ decision d p o owned free_slot = .respond .ack (some i) := by
  unfold decision
  split
  · next htype =>
    unfold discover
    split
    · exact .inl rfl
    cases owned with
    | some i => exact .inr (.inr (.inr (.inr (.inr (.inl ⟨i, htype, .inl rfl, rfl⟩)))))
    | none =>
      cases free_slot with
      | none => exact .inl rfl
      | some i => exact .inr (.inr (.inr (.inr (.inr (.inl ⟨i, htype, .inr ⟨rfl, rfl⟩, rfl⟩)))))
  split
  · next htype =>
    unfold request
    split
    · exact .inl rfl
    split
    · exact .inl rfl
    simp only
    split
    · exact .inl rfl
    split
    · exact .inr (.inr (.inr (.inl ⟨_, rfl⟩)))
    next hslot =>
    split
    · split
      · exact .inl rfl
      · exact .inr (.inr (.inr (.inl ⟨_, rfl⟩)))
    · next heq =>
      rw [not_not] at heq
      rw [heq] at hslot ⊢
      cases owned with
      | none => simp at hslot
      | some i => exact .inr (.inr (.inr (.inr (.inr (.inr ⟨i, rfl, htype, rfl⟩)))))
  split
  · next htype =>
    unfold release
    cases owned with
    | none => exact .inl rfl
    | some i =>
      simp only
      split
      · exact .inl rfl
      · next hvalid =>
        simp at hvalid
        exact .inr (.inl ⟨i, rfl, ⟨htype, hvalid.1.1, hvalid.1.2, hvalid.2⟩, rfl⟩)
  split
  · next htype =>
    unfold decline
    cases owned with
    | none => exact .inl rfl
    | some i =>
      cases hrequested : o.requested with
      | none => exact .inl rfl
      | some requested =>
        simp only
        split
        · exact .inl rfl
        · next hvalid =>
          simp at hvalid
          exact .inr (.inr (.inl ⟨i, rfl, ⟨htype, hvalid.1, requested, rfl, hvalid.2⟩, rfl⟩))
  split
  · next htype =>
    unfold inform
    simp only
    split
    · exact .inl rfl
    · exact .inr (.inr (.inr (.inr (.inl ⟨htype, rfl⟩))))
  · exact .inl rfl

/-- A datagram is at least as long as its fixed fields. -/
theorem accepted_length {d : Server} {a : Arrival} {p : List Byte} {o : Options}
    (h : accepted d a p = some o) : options_offset + 4 ≤ p.length := by
  unfold accepted at h
  split at h
  · cases h
  · next hlen =>
    simp only [Bool.or_eq_true, decide_eq_true_eq, not_or, not_lt] at hlen
    exact hlen.1.1.2

section Sent

variable {d : Server} {p : List Byte} (hp : options_offset + 4 ≤ p.length) (o : Options)
  (client : Client) (response : Response) (chosen : Option (Fin 8)) (dest : Ip4)
include hp

/-- A reply that is sent is seen as what it is. -/
theorem sent_iff (r : Response) (client' : Client) (ip : Ip4) :
    (∃ packet dest', Event.sent client (reply d p o response chosen) dest = .sent client' packet dest' ∧
      message_type packet = r.code ∧ given packet = ip) ↔
      client' = client ∧ response = r ∧ yiaddr d response chosen = ip := by
  constructor
  · rintro ⟨packet, dest', heq, htype, hgiven⟩
    cases heq
    rw [message_type_reply d hp] at htype
    rw [given_reply d hp] at hgiven
    exact ⟨rfl, Response.code_inj htype, hgiven⟩
  · rintro ⟨rfl, rfl, rfl⟩
    exact ⟨_, dest, rfl, message_type_reply d hp o response chosen, given_reply d hp o response chosen⟩

theorem sent_offers_iff (client' : Client) (ip : Ip4) :
    (Event.sent client (reply d p o response chosen) dest).offers client' ip ↔
      client' = client ∧ response = .offer ∧ yiaddr d response chosen = ip :=
  sent_iff hp o client response chosen dest .offer client' ip

theorem sent_acks_iff (client' : Client) (ip : Ip4) :
    (Event.sent client (reply d p o response chosen) dest).acks client' ip ↔
      client' = client ∧ response = .ack ∧ yiaddr d response chosen = ip :=
  sent_iff hp o client response chosen dest .ack client' ip

/-- A reply gives the address it carries, if it gives one. -/
theorem sent_gives (client' : Client) (ip : Ip4)
    (hgives : (Event.sent client (reply d p o response chosen) dest).gives client' ip) :
    client' = client ∧ (response = .offer ∨ response = .ack) ∧ yiaddr d response chosen = ip := by
  rcases hgives with h | h
  · obtain ⟨hc, hr, hip⟩ := (sent_offers_iff hp o client response chosen dest client' ip).mp h
    exact ⟨hc, .inl hr, hip⟩
  · obtain ⟨hc, hr, hip⟩ := (sent_acks_iff hp o client response chosen dest client' ip).mp h
    exact ⟨hc, .inr hr, hip⟩

omit hp in
theorem sent_not_ends (packet : List Byte) (client' : Client) (ip : Ip4) :
    ¬ (Event.sent client packet dest).ends client' ip := by
  rintro (h | h) <;> cases h

end Sent

/-- **One datagram.** -/
theorem receive_received (d : Server) (now : ℕ) (a : Arrival) :
    (receive d now a).1.ip = d.ip ∧ Received d now a (receive d now a).1.lease (receive d now a).2 := by
  unfold receive
  split
  · exact ⟨rfl, .untouched⟩
  next p hdatagram =>
  simp only
  split
  · exact ⟨rfl, .untouched⟩
  next o ho =>
  have hp := accepted_length ho
  have hvalid : accepted d a p = some o := ho
  have hs := scanned now (client_of p o) d.lease
  have hlease := scan_lease now (client_of p o) d.lease
  generalize scan now (client_of p o) d.lease = s at hs hlease ⊢
  obtain ⟨lease, owned, free_slot⟩ := s
  simp only at hs hlease ⊢
  generalize hd' : ({ d with received := d.received + 1, lease := lease } : Server) = d'
  have hip : d'.ip = d.ip := by rw [← hd']
  have htable : d'.lease = fun i => expire now (d.lease i) := by rw [← hd', hlease]
  have haddress : ∀ i, address d' i = address d i := address_of_ip hip
  have howned : ∀ i, owned = some i → same_client (expire now (d.lease i)) (client_of p o) = true :=
    fun i hi => (hs.owned i hi).2
  have hquiet : Received d now a d'.lease [] := by
    rw [htable]
    exact .quiet
  rcases decision_cases d' p o owned free_slot with h | ⟨i, hi, -, h⟩ | ⟨i, hi, -, h⟩ | ⟨chosen, h⟩ |
    ⟨-, h⟩ | ⟨i, htype, hi, h⟩ | ⟨i, hi, -, h⟩
  · rw [h, act]
    exact ⟨hip, hquiet⟩
  · rw [h, act]
    refine ⟨hip, ?_⟩
    simp only [htable, haddress]
    exact .released _ i (howned i hi)
  · rw [h, act]
    refine ⟨hip, ?_⟩
    simp only [htable, haddress]
    exact .declined _ i (howned i hi)
  all_goals
    -- a reply that cannot be sent shows nothing, and leaves the table alone
    rw [h, act]
    split
    · exact ⟨hip, hquiet⟩
    refine ⟨hip, ?_⟩
    simp only [htable]
  · refine .answered _ ?_ (fun client ip => sent_not_ends _ _ _ client ip) ?_
    · intro client ip hgives
      obtain ⟨_, hno | hno, _⟩ := sent_gives hp o _ _ _ _ client ip hgives <;> cases hno
    · intro client ip hoffers
      obtain ⟨_, hno, _⟩ := (sent_offers_iff hp o _ _ _ _ client ip).mp hoffers
      cases hno
  · -- the ACK of an INFORM gives 0.0.0.0
    refine .answered _ ?_ (fun client ip => sent_not_ends _ _ _ client ip) ?_
    · intro client ip hgives
      exact (sent_gives hp o _ _ _ _ client ip hgives).2.2.symm
    · intro client ip hoffers
      obtain ⟨_, hno, _⟩ := (sent_offers_iff hp o _ _ _ _ client ip).mp hoffers
      cases hno
  · refine .offered p o hdatagram hvalid htype (client_of p o) rfl i _ ?_ ?_
      (fun client ip => sent_not_ends _ _ _ client ip) ?_
    · exact (sent_offers_iff hp o _ _ _ _ _ _).mpr ⟨rfl, rfl, haddress i⟩
    · intro client ip hgives
      obtain ⟨hc, _, hgiven⟩ := sent_gives hp o _ _ _ _ client ip hgives
      exact ⟨hc, hgiven.symm.trans (haddress i)⟩
    · rcases hi with hi | ⟨hnone, hfree⟩
      · exact .inl (howned i hi)
      · exact .inr ⟨hs.free_slot i hfree, fun j => hs.unowned hnone j (List.mem_finRange j)⟩
  · refine .acked (client_of p o) i _ ?_ ?_ (fun client ip => sent_not_ends _ _ _ client ip)
      (howned i hi)
    · exact (sent_acks_iff hp o _ _ _ _ _ _).mpr ⟨rfl, rfl, haddress i⟩
    · intro client ip hgives
      obtain ⟨hc, _, hgiven⟩ := sent_gives hp o _ _ _ _ client ip hgives
      exact ⟨hc, hgiven.symm.trans (haddress i)⟩

/-! ## Slots that are held -/

/-- The lease carries the client and lasts until the time `until`; an offer may be renewed, but
not for longer than an offer lasts. -/
structure Held (l : Lease) (client : Client) (until_ms now : ℕ) : Prop where
  carries : same_client l client = true
  since : l.since_ms ≤ now
  lasts : until_ms ≤ l.since_ms + l.duration_ms
  offered : l.state = .offered → until_ms ≤ now + offer_ms
  bound : until_ms ≤ now + lease_ms

/-- The slot is out of use until the time `until`. -/
structure Quarantined (l : Lease) (until_ms now : ℕ) : Prop where
  state : l.state = .declined
  since : l.since_ms ≤ now
  lasts : until_ms ≤ l.since_ms + l.duration_ms

variable {l : Lease}

theorem same_client_iff {client : Client} :
    same_client l client = true ↔ (l.state = .offered ∨ l.state = .bound) ∧ l.client = client := by
  unfold same_client
  cases l.state <;> simp

variable {c : Client}

theorem same_client_inj {c' : Client} (h : same_client l c = true)
    (h' : same_client l c' = true) : c = c' := by
  rw [same_client_iff] at h h'
  rw [← h.2, h'.2]

/-- A lease does not end early. -/
theorem expire_eq {now : ℕ} (hsince : l.since_ms ≤ now)
    (hlasts : now < l.since_ms + l.duration_ms) : expire now l = l := by
  unfold expire elapsed
  rw [if_neg]
  simp only [Bool.and_eq_true, decide_eq_true_eq, not_and, not_le, if_pos hsince]
  omega

theorem Held.later {client : Client} {until_ms clock now : ℕ}
    (h : Held l client until_ms clock) (hnow : clock ≤ now) : Held l client until_ms now :=
  ⟨h.carries, h.since.trans hnow, h.lasts, fun hs => (h.offered hs).trans (by omega),
    h.bound.trans (by omega)⟩

theorem Held.expire_eq {client : Client} {until_ms now : ℕ}
    (h : Held l client until_ms now) (hnow : now < until_ms) : expire now l = l :=
  Dhcp.expire_eq h.since (lt_of_lt_of_le hnow h.lasts)

/-- What a commit leaves in a slot. -/
theorem commit_ack (lease : Table) (now : ℕ) (client : Client) (i j : Fin 8) :
    commit lease now client .ack (some i) j
      = if j = i then ⟨client, .bound, now, lease_ms⟩ else lease j := by
  by_cases h : j = i
  · subst h
    simp [commit]
  · simp [commit, h]

theorem commit_offer (lease : Table) (now : ℕ) (client : Client) (i j : Fin 8) :
    commit lease now client .offer (some i) j
      = if j = i ∧ (lease i).state ≠ .bound then ⟨client, .offered, now, offer_ms⟩ else lease j := by
  unfold commit
  by_cases hb : (lease i).state = .bound
  · simp [hb]
  · by_cases h : j = i
    · subst h
      simp [hb]
    · simp [hb, h]

variable {e : Event}

section Step

variable {d : Server} {now : ℕ} {a : Arrival} {lease : Table} {events : List Event} {i : Fin 8} {client : Client}
  {until_ms : ℕ}

/-- What a datagram can do to one slot. -/
inductive Touched (d : Server) (now : ℕ) (events : List Event) (i : Fin 8) : Lease → Prop
  | same : Touched d now events i (d.lease i)
  | expired : Touched d now events i (expire now (d.lease i))
  | released (c : Client) (owned : same_client (expire now (d.lease i)) c = true)
      (seen : .released c (address d i) ∈ events) : Touched d now events i {}
  | declined (c : Client) (owned : same_client (expire now (d.lease i)) c = true)
      (seen : .declined c (address d i) ∈ events) : Touched d now events i
        { expire now (d.lease i) with state := .declined, since_ms := now, duration_ms := decline_ms }
  | offered (c : Client) (unbound : (expire now (d.lease i)).state ≠ .bound)
      (chosen : same_client (expire now (d.lease i)) c = true ∨ (expire now (d.lease i)).state = .free) :
      Touched d now events i ⟨c, .offered, now, offer_ms⟩
  | bound (c : Client) (owned : same_client (expire now (d.lease i)) c = true) :
      Touched d now events i ⟨c, .bound, now, lease_ms⟩

/-- A slot changes only by what the datagram's events say of it. -/
theorem Received.touched (hr : Received d now a lease events) (i : Fin 8) :
    Touched d now events i (lease i) := by
  cases hr with
  | untouched => exact .same
  | quiet => exact .expired
  | answered => exact .expired
  | released c j owned =>
    by_cases hj : i = j
    · subst hj
      rw [Function.update_self]
      exact .released c owned (List.mem_singleton.mpr rfl)
    · rw [Function.update_of_ne hj]
      exact .expired
  | declined c j owned =>
    by_cases hj : i = j
    · subst hj
      rw [Function.update_self]
      exact .declined c owned (List.mem_singleton.mpr rfl)
    · rw [Function.update_of_ne hj]
      exact .expired
  | offered p o datagram valid discovers c sender j e offers only unended chosen =>
    rw [commit_offer]
    split
    · next hj =>
      obtain ⟨rfl, hbound⟩ := hj
      exact .offered c hbound (chosen.imp id And.left)
    · exact .expired
  | acked c j e acks only unended owned =>
    rw [commit_ack]
    split
    · next hj =>
      subst hj
      exact .bound c owned
    · exact .expired

/-- **A slot stays held**, until its time has come or its client gives it back. -/
theorem Held.received (h : Held (d.lease i) client until_ms now) (hnow : now < until_ms)
    (hr : Received d now a lease events) :
    Held (lease i) client until_ms now ∨ ∃ e ∈ events, e.ends client (address d i) := by
  have hkeep := h.expire_eq hnow
  have ht := hr.touched i
  generalize lease i = l at ht ⊢
  cases ht with
  | same => exact .inl h
  | expired =>
    rw [hkeep]
    exact .inl h
  | released c owned seen =>
    rw [hkeep] at owned
    rw [same_client_inj h.carries owned]
    exact .inr ⟨_, seen, .inl rfl⟩
  | declined c owned seen =>
    rw [hkeep] at owned
    rw [same_client_inj h.carries owned]
    exact .inr ⟨_, seen, .inr rfl⟩
  | offered c unbound chosen =>
    -- the offer is renewed, for the same client
    rw [hkeep] at chosen unbound
    have hoffered : (d.lease i).state = .offered :=
      (same_client_iff.mp h.carries).1.resolve_right unbound
    have hsame : c = client := by
      rcases chosen with hc | hfree
      · exact same_client_inj hc h.carries
      · rw [hoffered] at hfree
        cases hfree
    subst hsame
    refine .inl ⟨?_, le_refl now, h.offered hoffered, fun _ => h.offered hoffered, h.bound⟩
    exact same_client_iff.mpr ⟨.inl rfl, rfl⟩
  | bound c owned =>
    rw [hkeep] at owned
    have hsame := same_client_inj owned h.carries
    subst hsame
    refine .inl ⟨same_client_iff.mpr ⟨.inr rfl, rfl⟩, le_refl now, h.bound, ?_, h.bound⟩
    intro hno
    cases hno

/-- **Who is given an address**: the client that had its slot, or anyone if it was free. -/
theorem Received.given_to (hr : Received d now a lease events) (he : e ∈ events)
    (hgives : e.gives c (address d i)) :
    same_client (expire now (d.lease i)) c = true ∨ (expire now (d.lease i)).state = .free := by
  cases hr with
  | untouched => cases he
  | quiet => cases he
  | released c' j owned =>
    rw [List.mem_singleton.mp he] at hgives
    rcases hgives with ⟨_, _, heq, _⟩ | ⟨_, _, heq, _⟩ <;> cases heq
  | declined c' j owned =>
    rw [List.mem_singleton.mp he] at hgives
    rcases hgives with ⟨_, _, heq, _⟩ | ⟨_, _, heq, _⟩ <;> cases heq
  | answered e' nothing =>
    rw [List.mem_singleton.mp he] at hgives
    exact absurd (nothing _ _ hgives) (address_ne_zero d i)
  | offered p o datagram valid discovers c' sender j e' offers only unended chosen =>
    rw [List.mem_singleton.mp he] at hgives
    obtain ⟨rfl, hip⟩ := only _ _ hgives
    rw [address_inj hip]
    exact chosen.imp id And.left
  | acked c' j e' acks only unended owned =>
    rw [List.mem_singleton.mp he] at hgives
    obtain ⟨rfl, hip⟩ := only _ _ hgives
    rw [address_inj hip]
    exact .inl owned

/-- **Nobody else is given a held address.** -/
theorem Held.gives (h : Held (d.lease i) client until_ms now) (hnow : now < until_ms)
    (hr : Received d now a lease events) (he : e ∈ events) {client' : Client}
    (hgives : e.gives client' (address d i)) : client' = client := by
  have hkeep := h.expire_eq hnow
  have hto := hr.given_to he hgives
  rw [hkeep] at hto
  rcases hto with hc | hfree
  · exact same_client_inj hc h.carries
  · rcases (same_client_iff.mp h.carries).1 with hs | hs <;> rw [hs] at hfree <;> cases hfree

theorem Quarantined.expire_eq (h : Quarantined l until_ms now) (hnow : now < until_ms) :
    expire now l = l :=
  Dhcp.expire_eq h.since (lt_of_lt_of_le hnow h.lasts)

theorem Quarantined.not_same (h : Quarantined l until_ms now) (c : Client) : same_client l c ≠ true := by
  intro hc
  rcases (same_client_iff.mp hc).1 with hs | hs <;> rw [h.state] at hs <;> cases hs

/-- A declined slot is nobody's and not free, so no datagram chooses it. -/
theorem Quarantined.received (h : Quarantined (d.lease i) until_ms now) (hnow : now < until_ms)
    (hr : Received d now a lease events) :
    Quarantined (lease i) until_ms now ∧ ∀ e ∈ events, ∀ c, ¬ e.gives c (address d i) := by
  have hkeep := h.expire_eq hnow
  -- the slot is nobody's, and it is not free
  have hnot : ∀ c, ¬ (same_client (expire now (d.lease i)) c = true ∨
      (expire now (d.lease i)).state = .free) := by
    rintro c (hc | hfree)
    · rw [hkeep] at hc
      exact h.not_same c hc
    · rw [hkeep, h.state] at hfree
      cases hfree
  refine ⟨?_, fun e he c hgives => hnot c (hr.given_to he hgives)⟩
  have ht := hr.touched i
  generalize lease i = l at ht ⊢
  cases ht with
  | same => exact h
  | expired =>
    rw [hkeep]
    exact h
  | released c owned => exact absurd (.inl owned) (hnot c)
  | declined c owned => exact absurd (.inl owned) (hnot c)
  | offered c unbound chosen => exact absurd chosen (hnot c)
  | bound c owned => exact absurd (.inl owned) (hnot c)

end Step

/-! ## One slot for a client -/

/-- No client has two slots. -/
def OneSlot (lease : Table) : Prop :=
  ∀ i j c, same_client (lease i) c = true → same_client (lease j) c = true → i = j

theorem same_client_of_expire {now : ℕ}
    (h : same_client (expire now l) c = true) : same_client l c = true := by
  unfold expire at h
  split at h
  · simp [same_client] at h
  · exact h

theorem OneSlot.expire {lease : Table} (h : OneSlot lease) (now : ℕ) :
    OneSlot fun i => expire now (lease i) :=
  fun i j c hi hj => h i j c (same_client_of_expire hi) (same_client_of_expire hj)

/-- A slot that is given to a client whose slot it is, or who has none. -/
theorem OneSlot.update {lease : Table} (h : OneSlot lease) (i : Fin 8) (l : Lease)
    (hl : ∀ c, same_client l c = true →
      same_client (lease i) c = true ∨ ∀ j, same_client (lease j) c = false) :
    OneSlot (Function.update lease i l) := by
  have hother : ∀ j c, j ≠ i → same_client (lease j) c = true → same_client l c = true → j = i := by
    intro j c hne hj hc
    rcases hl c hc with hi | hno
    · exact h j i c hj hi
    · rw [hno j] at hj
      cases hj
  intro j k c hj hk
  by_cases hji : j = i
  · by_cases hki : k = i
    · rw [hji, hki]
    · rw [hji, Function.update_self] at hj
      rw [Function.update_of_ne hki] at hk
      exact hji.trans (hother k c hki hk hj).symm
  · rw [Function.update_of_ne hji] at hj
    by_cases hki : k = i
    · rw [hki, Function.update_self] at hk
      exact (hother j c hji hj hk).trans hki.symm
    · rw [Function.update_of_ne hki] at hk
      exact h j k c hj hk

section OneSlotStep

variable {d : Server} {now : ℕ} {a : Arrival} {lease : Table} {events : List Event}

/-- A client never comes to hold a second slot. -/
theorem OneSlot.received (h : OneSlot d.lease) (hr : Received d now a lease events) : OneSlot lease := by
  have hexpired := h.expire now
  have hnew : ∀ (l : Lease) (c c' : Client), same_client l c = true → l.client = c' → c = c' := by
    intro l c c' hc hclient
    rw [← (same_client_iff.mp hc).2, hclient]
  cases hr with
  | untouched => exact h
  | quiet => exact hexpired
  | answered => exact hexpired
  | released c i owned => exact hexpired.update i {} (by simp [same_client])
  | declined c i owned => exact hexpired.update i _ (by simp [same_client])
  | offered p o datagram valid discovers c sender i e offers only unended chosen =>
    simp only [commit]
    split
    · exact hexpired
    · refine hexpired.update i _ ?_
      intro c' hc'
      rw [hnew _ c' c hc' rfl]
      exact chosen.imp id And.right
  | acked c i e acks only unended owned =>
    refine hexpired.update i _ ?_
    intro c' hc'
    rw [hnew _ c' c hc' rfl]
    exact .inl owned

theorem Received.length_le (hr : Received d now a lease events) : events.length ≤ 1 := by
  cases hr with
  | untouched => exact Nat.zero_le 1
  | quiet => exact Nat.zero_le 1
  | _ => exact le_refl 1

end OneSlotStep

/-! ## Promises -/

/-- What an event promises: a slot, to a client, until some time. -/
abbrev Promise := ℕ × Event → Fin 8 → Client → ℕ → Prop

/-- The slots that were promised are held. -/
def Kept (P : Promise) (n : Net) : Prop :=
  ∀ before x later, n.log = before ++ x :: later → ∀ i c until_ms, P x i c until_ms →
    (∃ z ∈ later, z.2.ends c (address n.server i)) ∨ until_ms ≤ n.clock ∨
      Held (n.server.lease i) c until_ms n.clock

/-- Nobody else is given a promised address, unless the client gave it back. -/
def Honoured (P : Promise) (n : Net) : Prop :=
  ∀ before x mid y rest, n.log = before ++ x :: (mid ++ y :: rest) → ∀ i c until_ms, P x i c until_ms →
    ∀ c', y.2.gives c' (address n.server i) → c' ≠ c →
      until_ms ≤ y.1 ∨ ∃ z ∈ mid, z.2.ends c (address n.server i)

/-- A step of a run, taken apart. -/
theorem step_received (n : Net) (a : Arrival) : ∃ events,
    (receive n.server (n.clock + a.delay) a).2 = events ∧
    Received n.server (n.clock + a.delay) a (n.step a).server.lease events ∧
    (events.map fun e => (n.clock + a.delay, e)).length ≤ 1 ∧
    (n.step a).log = n.log ++ events.map fun e => (n.clock + a.delay, e) := by
  have hr := (receive_received n.server (n.clock + a.delay) a).2
  exact ⟨_, rfl, hr, by rw [List.length_map]; exact hr.length_le, rfl⟩

theorem address_step (n : Net) (a : Arrival) (i : Fin 8) :
    address (n.step a).server i = address n.server i :=
  address_of_ip (receive_received n.server (n.clock + a.delay) a).1 i

variable {n : Net}

/-- **Promises are kept by every step** whose own promises hold right after it. -/
theorem Kept.step {P : Promise} (h : Kept P n) (a : Arrival)
    (hstart : ∀ e ∈ (receive n.server (n.clock + a.delay) a).2, ∀ i c until_ms,
      P (n.clock + a.delay, e) i c until_ms → Held ((n.step a).server.lease i) c until_ms
        (n.clock + a.delay)) : Kept P (n.step a) := by
  obtain ⟨events, hevents, hr, hlen, hlog⟩ := step_received n a
  unfold Kept
  rw [hlog]
  refine Runs.splits_append hlen h ?_ ?_
  · -- an older promise: the slot stays held, or its time has come, or it was given back
    intro x later hx i c until_ms hp
    rw [address_step]
    rcases hx i c until_ms hp with ⟨z, hz, hends⟩ | hover | hheld
    · exact .inl ⟨z, List.mem_append_left _ hz, hends⟩
    · exact .inr (.inl (hover.trans (Nat.le_add_right _ _)))
    · by_cases hnow : n.clock + a.delay < until_ms
      · rcases (hheld.later (Nat.le_add_right _ _)).received hnow hr with hkeep | ⟨e, he, hends⟩
        · exact .inr (.inr hkeep)
        · exact .inl ⟨_, List.mem_append_right _ (List.mem_map_of_mem he), hends⟩
      · exact .inr (.inl (not_lt.mp hnow))
  · intro x hx i c until_ms hp
    obtain ⟨e, he, rfl⟩ := List.mem_map.mp hx
    rw [← hevents] at he
    exact .inr (.inr (hstart e he i c until_ms hp))

/-- **Kept promises are honoured by every step.** -/
theorem Honoured.step {P : Promise} (h : Honoured P n) (hkept : Kept P n) (a : Arrival) :
    Honoured P (n.step a) := by
  obtain ⟨events, -, hr, hlen, hlog⟩ := step_received n a
  unfold Honoured
  simp only [hlog, address_step]
  refine Runs.pairs_append hlen h ?_
  intro before x mid hbefore y hy i c until_ms hp c' hgives hne
  obtain ⟨e, he, rfl⟩ := List.mem_map.mp hy
  rcases hkept before x mid hbefore i c until_ms hp with hends | hover | hheld
  · exact .inr hends
  · exact .inl (hover.trans (Nat.le_add_right _ _))
  · by_cases hnow : n.clock + a.delay < until_ms
    · have hheld' := hheld.later (Nat.le_add_right n.clock a.delay)
      exact absurd (hheld'.gives hnow hr he hgives) hne
    · exact .inl (not_lt.mp hnow)

/-! ## Leases -/

/-- An ACK promises its address for the lease. -/
def AckPromise (ip : Ip4) : Promise := fun x i c until_ms =>
  x.2.acks c (pool ip i) ∧ until_ms = x.1 + lease_ms

theorem not_offers_of_acks {c' : Client} {ip ip' : Ip4} (h : e.acks c ip) : ¬ e.offers c' ip' := by
  obtain ⟨packet, dest, rfl, htype, -⟩ := h
  rintro ⟨packet', dest', heq, htype', -⟩
  cases heq
  exact absurd (htype.symm.trans htype') (by decide)

/-- **Who is acknowledged**: the client that had the slot, and has it now. -/
theorem Received.acknowledged {d : Server} {now : ℕ} {a : Arrival} {lease : Table} {events : List Event}
    (hr : Received d now a lease events) (he : e ∈ events) {ip : Ip4}
    (hacks : e.acks c ip) (hip : ip ≠ ⟨0, 0, 0, 0⟩) :
    ∃ i, ip = address d i ∧ same_client (expire now (d.lease i)) c = true ∧
      lease i = ⟨c, .bound, now, lease_ms⟩ := by
  cases hr with
  | untouched => cases he
  | quiet => cases he
  | released c' j owned =>
    rw [List.mem_singleton.mp he] at hacks
    obtain ⟨_, _, heq, _⟩ := hacks
    cases heq
  | declined c' j owned =>
    rw [List.mem_singleton.mp he] at hacks
    obtain ⟨_, _, heq, _⟩ := hacks
    cases heq
  | answered e' nothing =>
    rw [List.mem_singleton.mp he] at hacks
    exact absurd (nothing _ _ (.inr hacks)) hip
  | offered p o datagram valid discovers c' sender j e' offers only unended chosen =>
    rw [List.mem_singleton.mp he] at hacks
    exact absurd offers (not_offers_of_acks hacks)
  | acked c' j e' acks only unended owned =>
    rw [List.mem_singleton.mp he] at hacks
    obtain ⟨rfl, rfl⟩ := only _ _ (.inr hacks)
    refine ⟨j, rfl, owned, ?_⟩
    rw [commit_ack, if_pos rfl]

/-- A decline puts its slot out of use. -/
theorem Received.quarantines {d : Server} {now : ℕ} {a : Arrival} {lease : Table} {events : List Event}
    (hr : Received d now a lease events) (he : e ∈ events) {i : Fin 8}
    (hdeclined : e = .declined c (address d i)) : Quarantined (lease i) (now + decline_ms) now := by
  have hnot : ∀ c' ip, ¬ e.gives c' ip := by
    rintro c' ip (⟨_, _, heq, _⟩ | ⟨_, _, heq, _⟩) <;> rw [hdeclined] at heq <;> cases heq
  have hends : e.ends c (address d i) := .inr hdeclined
  cases hr with
  | untouched => cases he
  | quiet => cases he
  | released c' j owned =>
    rw [List.mem_singleton.mp he] at hdeclined
    cases hdeclined
  | declined c' j owned =>
    rw [List.mem_singleton.mp he] at hdeclined
    injection hdeclined with _ hip
    rw [← address_inj hip, Function.update_self]
    exact ⟨rfl, le_refl _, le_refl _⟩
  | answered e' nothing unended =>
    rw [List.mem_singleton.mp he] at hends
    exact absurd hends (unended _ _)
  | offered p o datagram valid discovers c' sender j e' offers =>
    rw [List.mem_singleton.mp he] at hnot
    exact absurd (.inl offers) (hnot _ _)
  | acked c' j e' acks =>
    rw [List.mem_singleton.mp he] at hnot
    exact absurd (.inr acks) (hnot _ _)

/-- The slots that were declined are out of use. -/
def Declined (n : Net) : Prop :=
  ∀ before x later, n.log = before ++ x :: later → ∀ i c, x.2 = .declined c (address n.server i) →
    x.1 + decline_ms ≤ n.clock ∨ Quarantined (n.server.lease i) (x.1 + decline_ms) n.clock

/-- What holds in every state of a run. -/
structure Exclusive (n : Net) : Prop where
  /-- No client has two slots. -/
  one_slot : OneSlot n.server.lease
  /-- The next datagram: a non-INFORM ACK goes to the client whose key the slot carries, before
  and after it. -/
  holder : ∀ a, ∀ e ∈ (receive n.server (n.clock + a.delay) a).2, ∀ c ip, e.acks c ip →
    ip ≠ ⟨0, 0, 0, 0⟩ → ∃ i, ip = address n.server i ∧ same_client (n.server.lease i) c = true ∧
      same_client ((receive n.server (n.clock + a.delay) a).1.lease i) c = true
  /-- A lease is nobody else's until it ends. -/
  lease : ∀ before x mid y rest, n.log = before ++ x :: (mid ++ y :: rest) → ∀ i c c',
    x.2.acks c (address n.server i) → y.2.gives c' (address n.server i) → c' ≠ c →
      x.1 + lease_ms ≤ y.1 ∨ ∃ z ∈ mid, z.2.ends c (address n.server i)
  /-- A declined address is nobody's for a while. -/
  quarantine : ∀ before x mid y rest, n.log = before ++ x :: (mid ++ y :: rest) → ∀ i c c',
    x.2 = .declined c (address n.server i) → y.2.gives c' (address n.server i) →
      x.1 + decline_ms ≤ y.1

theorem Quarantined.later {until_ms clock : ℕ} (h : Quarantined l until_ms clock) (delay : ℕ) :
    Quarantined l until_ms (clock + delay) :=
  ⟨h.state, h.since.trans (Nat.le_add_right _ _), h.lasts⟩

/-- A declined address stays out of reach for its quarantine. -/
theorem Declined.step (h : Declined n) (a : Arrival) : Declined (n.step a) := by
  obtain ⟨events, -, hr, hlen, hlog⟩ := step_received n a
  unfold Declined
  simp only [hlog, address_step]
  refine Runs.splits_append hlen h ?_ ?_
  · intro x later hold i c hx
    rcases hold i c hx with hover | hq
    · exact .inl (hover.trans (Nat.le_add_right _ _))
    · by_cases hnow : n.clock + a.delay < x.1 + decline_ms
      · exact .inr ((hq.later a.delay).received hnow hr).1
      · exact .inl (not_lt.mp hnow)
  · intro x hx i c hdeclined
    obtain ⟨e, he, rfl⟩ := List.mem_map.mp hx
    exact .inr (hr.quarantines he hdeclined)

/-- Nobody is given a declined address. -/
def Respected (n : Net) : Prop :=
  ∀ before x mid y rest, n.log = before ++ x :: (mid ++ y :: rest) → ∀ i c c',
    x.2 = .declined c (address n.server i) → y.2.gives c' (address n.server i) → x.1 + decline_ms ≤ y.1

theorem Respected.step (h : Respected n) (hdeclined : Declined n) (a : Arrival) :
    Respected (n.step a) := by
  obtain ⟨events, -, hr, hlen, hlog⟩ := step_received n a
  unfold Respected
  simp only [hlog, address_step]
  refine Runs.pairs_append hlen h ?_
  intro before x mid hbefore y hy i c c' hx hgives
  obtain ⟨e, he, rfl⟩ := List.mem_map.mp hy
  rcases hdeclined before x mid hbefore i c hx with hover | hq
  · exact hover.trans (Nat.le_add_right _ _)
  · by_cases hnow : n.clock + a.delay < x.1 + decline_ms
    · exact absurd hgives (((hq.later a.delay).received hnow hr).2 e he c')
    · exact not_lt.mp hnow

/-- What every run keeps. -/
structure Leased (ip : Ip4) (n : Net) : Prop where
  ip_eq : n.server.ip = ip
  one_slot : OneSlot n.server.lease
  kept : Kept (AckPromise ip) n
  honoured : Honoured (AckPromise ip) n
  declined : Declined n
  respected : Respected n

/-- Every datagram keeps the promises made before it. -/
theorem Leased.step {ip : Ip4} (h : Leased ip n) (a : Arrival) : Leased ip (n.step a) := by
  obtain ⟨hip, hr⟩ := receive_received n.server (n.clock + a.delay) a
  refine ⟨hip.trans h.ip_eq, h.one_slot.received hr, h.kept.step a ?_, h.honoured.step h.kept a,
    h.declined.step a, h.respected.step h.declined a⟩
  rintro e he i c until_ms ⟨hacks, rfl⟩
  have haddress : pool ip i = address n.server i := by rw [address, h.ip_eq]
  rw [haddress] at hacks
  obtain ⟨j, hij, _, hlease⟩ := hr.acknowledged he hacks (address_ne_zero _ i)
  rw [← address_inj hij] at hlease
  change Held ((receive n.server (n.clock + a.delay) a).1.lease i) c _ _
  rw [hlease]
  refine ⟨same_client_iff.mpr ⟨.inr rfl, rfl⟩, le_refl _, le_refl _, ?_, le_refl _⟩
  intro hno
  cases hno

theorem leased_after (ip nm : Ip4) (arrivals : List Arrival) : Leased ip (after ip nm arrivals) := by
  refine Runs.run_invariant (P := Leased ip) Net.step ?_ (fun n a h => h.step a) arrivals
  refine ⟨rfl, ?_, ?_, ?_, ?_, ?_⟩
  · intro i j c hi
    simp [same_client] at hi
  · intro before x later hsplit
    simp at hsplit
  · intro before x mid y rest hsplit
    simp at hsplit
  · intro before x later hsplit
    simp at hsplit
  · intro before x mid y rest hsplit
    simp at hsplit

/-- **DHCP leases are exclusive.** In every run of datagrams, with any delays and any failures:
no client has two slots; an ACK that gives an address goes to the client whose key the slot
carries; an address that was acknowledged is offered or acknowledged to nobody else for 600000
ms, unless its client released or declined it; and a declined address is given to nobody for
60000 ms. -/
theorem leases_exclusive (ip nm : Ip4) (arrivals : List Arrival) : Exclusive (after ip nm arrivals) := by
  have h := leased_after ip nm arrivals
  refine ⟨h.one_slot, ?_, ?_, h.respected⟩
  · intro a e he c ip' hacks hne
    obtain ⟨i, hi, hbefore, hafter⟩ :=
      (receive_received _ _ a).2.acknowledged he hacks hne
    refine ⟨i, hi, same_client_of_expire hbefore, ?_⟩
    rw [hafter]
    exact same_client_iff.mpr ⟨.inr rfl, rfl⟩
  · intro before x mid y rest hsplit i c c' hacks hgives hne
    refine h.honoured before x mid y rest hsplit i c _ ⟨?_, rfl⟩ c' hgives hne
    rw [address, h.ip_eq] at hacks
    exact hacks

/-! ## Offers -/

/-- An OFFER promises its address for 30 seconds. -/
def OfferPromise (ip : Ip4) : Promise := fun x i c until_ms =>
  x.2.offers c (pool ip i) ∧ until_ms = x.1 + offer_ms

/-- A DISCOVER of a client whose binding runs, but not for another 30 seconds. -/
def Late (n : Net) (a : Arrival) : Prop :=
  ∃ p o, a.datagram = some p ∧ accepted n.server a p = some o ∧ o.type = 1 ∧
    ∃ i, (n.server.lease i).state = .bound ∧ (n.server.lease i).client = client_of p o ∧
      n.clock + a.delay < (n.server.lease i).since_ms + (n.server.lease i).duration_ms ∧
      (n.server.lease i).since_ms + (n.server.lease i).duration_ms < n.clock + a.delay + offer_ms

/-- A run without a late DISCOVER. -/
def Timely (ip nm : Ip4) (arrivals : List Arrival) : Prop :=
  ∀ front a, front ++ [a] <+: arrivals → ¬ Late (after ip nm front) a

/-- What the slots of a run look like: a lease has begun, and a binding lasts as long as a
lease does. -/
def Regular (n : Net) : Prop :=
  ∀ i, (n.server.lease i).since_ms ≤ n.clock ∧
    ((n.server.lease i).state = .bound → (n.server.lease i).duration_ms = lease_ms)

theorem expire_cases (now : ℕ) (l : Lease) : expire now l = {} ∨ expire now l = l := by
  unfold expire
  split
  · exact .inl rfl
  · exact .inr rfl

/-- A lease is stamped with the clock of its datagram, and the clock does not go back. -/
theorem Regular.step (h : Regular n) (a : Arrival) : Regular (n.step a) := by
  obtain ⟨events, -, hr, -, -⟩ := step_received n a
  intro i
  have hold : (n.server.lease i).since_ms ≤ n.clock + a.delay ∧
      ((n.server.lease i).state = .bound → (n.server.lease i).duration_ms = lease_ms) :=
    ⟨(h i).1.trans (Nat.le_add_right _ _), (h i).2⟩
  change _ ≤ n.clock + a.delay ∧ _
  have ht := hr.touched i
  generalize (n.step a).server.lease i = l at ht ⊢
  cases ht with
  | same => exact hold
  | expired =>
    rcases expire_cases (n.clock + a.delay) (n.server.lease i) with he | he
    · rw [he]
      exact ⟨Nat.zero_le _, fun hno => by cases hno⟩
    · rw [he]
      exact hold
  | released => exact ⟨Nat.zero_le _, fun hno => by cases hno⟩
  | declined => exact ⟨le_refl _, fun hno => by cases hno⟩
  | offered => exact ⟨le_refl _, fun hno => by cases hno⟩
  | bound => exact ⟨le_refl _, fun _ => rfl⟩

/-- **A timely OFFER holds its slot.** -/
theorem Received.reserves {a : Arrival} {lease : Table} {events : List Event} {i : Fin 8}
    (hregular : Regular n) (hlate : ¬ Late n a)
    (hr : Received n.server (n.clock + a.delay) a lease events) (he : e ∈ events)
    (hoffers : e.offers c (address n.server i)) :
    Held (lease i) c (n.clock + a.delay + offer_ms) (n.clock + a.delay) := by
  cases hr with
  | untouched => cases he
  | quiet => cases he
  | released c' j owned =>
    rw [List.mem_singleton.mp he] at hoffers
    obtain ⟨_, _, heq, _⟩ := hoffers
    cases heq
  | declined c' j owned =>
    rw [List.mem_singleton.mp he] at hoffers
    obtain ⟨_, _, heq, _⟩ := hoffers
    cases heq
  | answered e' nothing unended refused =>
    rw [List.mem_singleton.mp he] at hoffers
    exact absurd hoffers (refused _ _)
  | acked c' j e' acks =>
    rw [List.mem_singleton.mp he] at hoffers
    exact absurd hoffers (not_offers_of_acks acks)
  | offered p o datagram valid discovers c' sender j e' offers only unended chosen =>
    rw [List.mem_singleton.mp he] at hoffers
    obtain ⟨rfl, hip⟩ := only _ _ (.inl hoffers)
    have hij := address_inj hip
    subst hij
    have hoffer : offer_ms ≤ lease_ms := by decide
    rw [commit_offer]
    by_cases hbound : (expire (n.clock + a.delay) (n.server.lease i)).state = .bound
    · -- a binding is left alone, and it lasts for long enough
      rw [if_neg (fun hand => hand.2 hbound)]
      have hmine : same_client (expire (n.clock + a.delay) (n.server.lease i)) c = true := by
        rcases chosen with hc | ⟨hfree, _⟩
        · exact hc
        · rw [hbound] at hfree
          cases hfree
      have hkeep : expire (n.clock + a.delay) (n.server.lease i) = n.server.lease i := by
        rcases expire_cases (n.clock + a.delay) (n.server.lease i) with hx | hx
        · rw [hx] at hbound
          cases hbound
        · exact hx
      rw [hkeep] at hbound hmine ⊢
      obtain ⟨hsince, hduration⟩ := hregular i
      have hruns : n.clock + a.delay
          < (n.server.lease i).since_ms + (n.server.lease i).duration_ms := by
        by_contra hover
        have hcleared : expire (n.clock + a.delay) (n.server.lease i) = {} := by
          unfold expire elapsed
          rw [if_pos]
          simp only [Bool.and_eq_true, decide_eq_true_eq, hbound,
            if_pos (hsince.trans (Nat.le_add_right n.clock a.delay))]
          exact ⟨by decide, by omega⟩
        rw [hcleared] at hkeep
        rw [← hkeep] at hbound
        cases hbound
      have hlong : n.clock + a.delay + offer_ms
          ≤ (n.server.lease i).since_ms + (n.server.lease i).duration_ms := by
        by_contra hshort
        refine hlate ⟨p, o, datagram, valid, discovers, i, hbound, ?_, hruns, not_le.mp hshort⟩
        rw [← sender]
        exact (same_client_iff.mp hmine).2
      refine ⟨hmine, hsince.trans (Nat.le_add_right _ _), hlong, ?_, by omega⟩
      intro hno
      exact absurd (hbound.symm.trans hno) (by decide)
    · rw [if_pos ⟨rfl, hbound⟩]
      exact ⟨same_client_iff.mpr ⟨.inl rfl, rfl⟩, le_refl _, le_refl _, fun _ => le_refl _, by omega⟩

theorem slot_address (d : Server) (i : Fin 8) : slot d (address d i) = some i := by
  have hlast : (UInt8.ofNat (base_ip + i)).toNat = base_ip + i := by
    revert i
    decide
  unfold slot address pool
  simp only [hlast]
  rw [dif_pos ⟨trivial, trivial, trivial, by omega, by omega⟩]
  simp

theorem address_is_zero (d : Server) (i : Fin 8) : (address d i).is_zero = false := by
  have hne : (address d i).d ≠ 0 := base_ip_ne_zero i
  generalize address d i = ip at hne
  simp [Ip4.is_zero, zero, Ip4.bytes, hne]

/-- **A REQUEST for a held address is acknowledged**, if the reply can be sent. -/
theorem Held.acknowledged {d : Server} {now until_ms : ℕ} {i : Fin 8}
    (h : Held (d.lease i) c until_ms now) (hnow : now < until_ms) (hone : OneSlot d.lease) {a : Arrival}
    {p : List Byte} {o : Options} (hdatagram : a.datagram = some p) (hvalid : accepted d a p = some o)
    (htype : o.type = 3) (hwanted : o.requested = some (address d i))
    (hciaddr : (ciaddr p).is_zero = true) (hclient : client_of p o = c) :
    ∀ e ∈ (receive d now a).2, e.acks c (address d i) := by
  have hp := accepted_length hvalid
  have hs := scanned now c d.lease
  have howned : (scan now c d.lease).owned = some i := by
    have hmine : same_client (expire now (d.lease i)) c = true := by
      rw [h.expire_eq hnow]
      exact h.carries
    cases hcase : (scan now c d.lease).owned with
    | none =>
      rw [hs.unowned hcase i (List.mem_finRange i)] at hmine
      cases hmine
    | some j =>
      rw [hone.expire now i j c hmine (hs.owned j hcase).2]
  have hvalid' : accepted { d with received := d.received + 1 } a p = some o := hvalid
  have hdecision : ∀ lease free_slot, decision { d with received := d.received + 1, lease := lease } p o
      (some i) free_slot = .respond .ack (some i) := by
    intro lease free_slot
    have hslot : slot { d with received := d.received + 1, lease := lease } (address d i) = some i :=
      slot_address { d with received := d.received + 1, lease := lease } i
    unfold decision request
    rw [htype, hwanted]
    simp [hciaddr, address_is_zero, hslot]
  unfold receive
  rw [hdatagram]
  simp only [hvalid', hclient, howned, hdecision, act]
  split
  · intro e he
    cases he
  · intro e he
    rw [List.mem_singleton.mp he]
    exact (sent_acks_iff hp o c .ack (some i) _ c _).mpr ⟨rfl, rfl, rfl⟩

/-- What an OFFER is good for. -/
structure Reserved (n : Net) : Prop where
  /-- The address is given to nobody else for 30 seconds, unless the client gave it back. -/
  reserved : ∀ before x mid y rest, n.log = before ++ x :: (mid ++ y :: rest) → ∀ i c c',
    x.2.offers c (address n.server i) → y.2.gives c' (address n.server i) → c' ≠ c →
      x.1 + offer_ms ≤ y.1 ∨ ∃ z ∈ mid, z.2.ends c (address n.server i)
  /-- A matching REQUEST in that time is acknowledged and not refused. -/
  answered : ∀ before x later, n.log = before ++ x :: later → ∀ i c,
    x.2.offers c (address n.server i) → (∀ z ∈ later, ¬ z.2.ends c (address n.server i)) →
    ∀ a p o, a.datagram = some p → accepted n.server a p = some o → o.type = 3 →
      o.requested = some (address n.server i) → (ciaddr p).is_zero = true → client_of p o = c →
      n.clock + a.delay < x.1 + offer_ms →
      ∀ e ∈ (receive n.server (n.clock + a.delay) a).2, e.acks c (address n.server i)

/-- The offers of a timely run are kept. -/
theorem offers_kept (ip nm : Ip4) (arrivals : List Arrival) (h : Timely ip nm arrivals) :
    Regular (after ip nm arrivals) ∧ Kept (OfferPromise ip) (after ip nm arrivals) ∧
      Honoured (OfferPromise ip) (after ip nm arrivals) := by
  induction arrivals using List.reverseRecOn with
  | nil =>
    refine ⟨?_, ?_, ?_⟩
    · intro i
      exact ⟨le_refl _, fun hno => by cases hno⟩
    · intro before x later hsplit
      simp [after] at hsplit
    · intro before x mid y rest hsplit
      simp [after] at hsplit
  | append_singleton arrivals a ih =>
    obtain ⟨hregular, hkept, hhonoured⟩ := ih fun front b hf => h front b (hf.trans ⟨[a], rfl⟩)
    have hlate := h arrivals a List.prefix_rfl
    have hleased := leased_after ip nm arrivals
    rw [after, Runs.run_concat]
    change Regular ((after ip nm arrivals).step a) ∧ Kept _ ((after ip nm arrivals).step a) ∧
      Honoured _ ((after ip nm arrivals).step a)
    generalize after ip nm arrivals = n at *
    refine ⟨hregular.step a, hkept.step a ?_, hhonoured.step hkept a⟩
    rintro e he i c until_ms ⟨hoffers, rfl⟩
    have hr := (receive_received n.server (n.clock + a.delay) a).2
    have haddress : pool ip i = address n.server i := by rw [address, hleased.ip_eq]
    rw [haddress] at hoffers
    exact hr.reserves hregular hlate he hoffers

/-- **An OFFER is a reservation**, in every run in which no client sends a DISCOVER while its
binding has less than 30 seconds to run: nobody else is given the address for 30 seconds, unless
the client gave it back, and a matching REQUEST in that time is acknowledged. -/
theorem offers_reserve (ip nm : Ip4) (arrivals : List Arrival) (h : Timely ip nm arrivals) :
    Reserved (after ip nm arrivals) := by
  obtain ⟨-, hkept, hhonoured⟩ := offers_kept ip nm arrivals h
  have hleased := leased_after ip nm arrivals
  generalize after ip nm arrivals = n at *
  have haddress : ∀ i, pool ip i = address n.server i := by
    intro i
    rw [address, hleased.ip_eq]
  refine ⟨?_, ?_⟩
  · intro before x mid y rest hsplit i c c' hoffers hgives hne
    refine hhonoured before x mid y rest hsplit i c _ ⟨?_, rfl⟩ c' hgives hne
    rw [haddress]
    exact hoffers
  · intro before x later hsplit i c hoffers hkeeps a p o hdatagram hvalid htype hwanted hciaddr hclient
      hnow
    rw [← haddress] at hoffers
    rcases hkept before x later hsplit i c _ ⟨hoffers, rfl⟩ with ⟨z, hz, hends⟩ | hover | hheld
    · exact absurd hends (hkeeps z hz)
    · omega
    · exact (hheld.later (Nat.le_add_right _ _)).acknowledged hnow hleased.one_slot hdatagram hvalid htype
        hwanted hciaddr hclient

/-! ### A late DISCOVER -/

instance (e : Event) (c : Client) (ip : Ip4) : Decidable (e.offers c ip) :=
  match e with
  | .sent c' packet _ =>
    decidable_of_iff (c' = c ∧ message_type packet = Response.offer.code ∧ given packet = ip)
      ⟨by rintro ⟨rfl, h⟩; exact ⟨packet, _, rfl, h⟩, by rintro ⟨_, _, heq, h⟩; cases heq; exact ⟨rfl, h⟩⟩
  | .released _ _ => isFalse (by rintro ⟨_, _, heq, _⟩; cases heq)
  | .declined _ _ => isFalse (by rintro ⟨_, _, heq, _⟩; cases heq)

def sample_ip : Ip4 := ⟨192, 168, 77, 1⟩
def sample_mask : Ip4 := ⟨255, 255, 255, 0⟩

/-- A datagram of one of two clients, told apart by the last byte of the hardware address. -/
def sample_packet (type client : Byte) (options : List Byte) : List Byte :=
  [1, 1, 6, 0] ++ List.replicate 24 0 ++ [2, 0, 0, 0, 0, client] ++ List.replicate 202 0 ++ cookie
    ++ [53, 1, type] ++ options ++ [255]

def sample_client (client : Byte) : Client := ⟨[2, 0, 0, 0, 0, client], false⟩

/-- A client is bound, and sends a DISCOVER in the last millisecond of its lease; another client
comes one millisecond later. -/
def late_run : List Arrival :=
  [⟨0, some (sample_packet 1 1 []), 68, true, true, true⟩,
    ⟨0, some (sample_packet 3 1 ([50, 4, 192, 168, 77, 16] ++ [54, 4, 192, 168, 77, 1])), 68, true, true,
      true⟩,
    ⟨599999, some (sample_packet 1 1 []), 68, true, true, true⟩,
    ⟨1, some (sample_packet 1 2 []), 68, true, true, true⟩]

/-- The address of a late OFFER is offered to the other client. -/
theorem late_offer_not_reserved : ¬ Reserved (after sample_ip sample_mask late_run) := by
  intro h
  have hip := (leased_after sample_ip sample_mask late_run).ip_eq
  generalize hn : after sample_ip sample_mask late_run = n at h hip
  have haddress : address n.server 0 = ⟨192, 168, 77, 16⟩ := by
    rw [address, hip]
    rfl
  have hfacts : (n.log.drop 2).map (fun x => (x.1,
      decide (x.2.offers (sample_client 1) ⟨192, 168, 77, 16⟩),
      decide (x.2.offers (sample_client 2) ⟨192, 168, 77, 16⟩)))
      = [(599999, true, false), (600000, false, true)] := by
    rw [← hn]
    decide +kernel
  obtain ⟨x, y, hxy⟩ : ∃ x y, n.log.drop 2 = [x, y] := by
    rw [← List.length_eq_two, ← List.length_map, hfacts]
    rfl
  rw [hxy] at hfacts
  simp only [List.map_cons, List.map_nil, List.cons.injEq, Prod.mk.injEq, decide_eq_true_eq,
    decide_eq_false_iff_not] at hfacts
  obtain ⟨⟨hx, hoffers, -⟩, ⟨hy, -, hoffers'⟩, -⟩ := hfacts
  have hsplit : n.log = n.log.take 2 ++ x :: ([] ++ y :: []) := by
    rw [List.nil_append, ← hxy, List.take_append_drop]
  rw [← haddress] at hoffers hoffers'
  rcases h.reserved _ x [] y [] hsplit 0 _ _ hoffers (.inl hoffers') (by decide) with hover | ⟨z, hz, _⟩
  · rw [hx, hy] at hover
    exact absurd hover (by decide)
  · cases hz

/-- A client is bound and sends another DISCOVER one second later, with most of its lease still
to run; then another client comes. -/
def timely_run : List Arrival :=
  [⟨0, some (sample_packet 1 1 []), 68, true, true, true⟩,
    ⟨0, some (sample_packet 3 1 ([50, 4, 192, 168, 77, 16] ++ [54, 4, 192, 168, 77, 1])), 68, true, true,
      true⟩,
    ⟨1000, some (sample_packet 1 1 []), 68, true, true, true⟩,
    ⟨1000, some (sample_packet 1 2 []), 68, true, true, true⟩]

theorem offers_reserve_two : (after sample_ip sample_mask timely_run).log.length = 4 ∧
    ((after sample_ip sample_mask (timely_run.take 2)).server.lease 0).state = .bound ∧
    Reserved (after sample_ip sample_mask timely_run) := by
  refine ⟨by decide +kernel, by decide +kernel, offers_reserve sample_ip sample_mask timely_run ?_⟩
  -- every binding of this run has more than 30 seconds to run when the next datagram comes
  have hlong : ∀ front ∈ timely_run.inits, ∀ i,
      ((after sample_ip sample_mask front).server.lease i).state = .bound →
      (after sample_ip sample_mask front).clock + 1000 + offer_ms ≤
        ((after sample_ip sample_mask front).server.lease i).since_ms +
          ((after sample_ip sample_mask front).server.lease i).duration_ms := by decide +kernel
  have hsoon : ∀ a ∈ timely_run, a.delay ≤ 1000 := by
    simp [timely_run]
  rintro front a hfront ⟨_, _, _, _, _, i, hbound, _, _, hlate⟩
  have hmem := (List.mem_inits front _).mpr ((List.prefix_append _ _).trans hfront)
  have hrun := hlong front hmem i hbound
  have hdelay := hsoon a (hfront.subset (by simp))
  omega

end Firmingo.Dhcp
