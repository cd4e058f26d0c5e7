/-
Bytes and credit on a connection.

The pbuf of a slot is read in pieces, each of which is handed to the session and credited to
the PCB; a graceful close credits what was left. A pbuf comes from `receive`, and a PCB from
`accept`, which may put it into a slot that still has the session and the pbuf of a dead one.
Each of these is one action on one slot, by the frame rule.
-/
import Firmingo.TcpHandles

set_option autoImplicit false

open Octets

namespace Firmingo.Tcp

variable {l : List Event} {p q : Pcb} {k j : Slot}

section Actions

variable {conn : Slot → Connection} {alive : Slot → Bool} {l' : List Event} {c : Connection}

/-! ## Bytes are read -/

/-- What a read hands over, and what it records. -/
def Connection.copied (c : Connection) (b : Pbuf) (capacity : ℕ) : List Byte :=
  (b.bytes.drop c.offset).take (min capacity (b.tot_len - c.offset) % 2 ^ 16)

def Connection.advanced (c : Connection) (b : Pbuf) (capacity : ℕ) : Connection :=
  { c with offset := (c.offset + (c.copied b capacity).length) % 2 ^ 16 }

def read_trace (l : List Event) (k : Slot) (p : Pcb) (b : Pbuf) (bytes : List Byte) : List Event :=
  l ++ [Event.looked b] ++ [Event.handed p k b bytes] ++ [Event.called p (.recved bytes.length)]

theorem read_eq {t : Link} (hpcb : t.connection.pcb = some p) {b : Pbuf}
    (hpacket : t.connection.packet = some b) (hclosing : t.connection.closing = false)
    (capacity : ℕ) :
    t.read k capacity = (t.connection.copied b capacity,
      if (t.connection.advanced b capacity).offset = b.tot_len then
        ⟨(t.connection.advanced b capacity).drained,
          freed_trace (read_trace t.trace k p b (t.connection.copied b capacity)) (some b)⟩
      else ⟨t.connection.advanced b capacity,
        read_trace t.trace k p b (t.connection.copied b capacity)⟩) := by
  simp only [Link.read, hpcb, hpacket, hclosing, Bool.false_eq_true, if_false, Prod.mk.injEq]
  refine ⟨rfl, if_congr Iff.rfl ?_ rfl⟩
  simp only [Link.discard_packet, Link.call, Link.log, hpacket]
  rfl

/-- The lengths of a read, which do not wrap. -/
theorem copied_eq {c : Connection} {b : Pbuf} (h : c.offset ≤ b.tot_len) (capacity : ℕ) :
    c.copied b capacity = (b.bytes.drop c.offset).take capacity ∧
      c.offset + (c.copied b capacity).length ≤ b.tot_len ∧
      (c.advanced b capacity).offset = c.offset + (c.copied b capacity).length := by
  have hlt : b.tot_len < 2 ^ 16 := b.tot_len_lt
  have hlen : (b.bytes.drop c.offset).length = b.tot_len - c.offset := List.length_drop
  have hcount : c.copied b capacity = (b.bytes.drop c.offset).take capacity := by
    rw [Connection.copied, Nat.mod_eq_of_lt (by omega), ← hlen, ← List.take_take,
      List.take_length]
  have hle : (c.copied b capacity).length ≤ b.tot_len - c.offset := by
    rw [hcount, ← hlen]
    exact List.length_take_le' _ _
  exact ⟨hcount, by omega, Nat.mod_eq_of_lt (by omega)⟩

/-- The bytes that were not read, after a read. -/
theorem rest_advanced {c : Connection} {b : Pbuf} (hpacket : c.packet = some b)
    (h : c.offset ≤ b.tot_len) (capacity : ℕ) :
    c.rest = c.copied b capacity ++ (c.advanced b capacity).rest := by
  obtain ⟨hcopied, -, hoffset⟩ := copied_eq h capacity
  have hrest : c.rest = b.bytes.drop c.offset := by rw [Connection.rest, hpacket, Option.elim_some]
  have hrest' : (c.advanced b capacity).rest = (c.rest).drop (c.copied b capacity).length := by
    rw [Connection.rest, show (c.advanced b capacity).packet = some b from hpacket, Option.elim_some,
      hoffset, hrest, List.drop_drop]
  have htake : c.copied b capacity = c.rest.take (c.copied b capacity).length := by
    rw [hrest, hcopied, List.length_take, ← List.take_take, List.take_length]
  calc c.rest = c.rest.take (c.copied b capacity).length ++ c.rest.drop (c.copied b capacity).length :=
        (List.take_append_drop _ _).symm
    _ = _ := by rw [← htake, ← hrest']

section Read

variable {b : Pbuf} {bytes : List Byte}

theorem account_read (l : List Event) (k : Slot) (p : Pcb) (b : Pbuf) (bytes : List Byte) :
    account (read_trace l k p b bytes) p =
      { account l p with
        handed := (account l p).handed ++ bytes
        credit := (account l p).credit + bytes.length } := by
  rw [read_trace, account_called_self, account_concat, if_pos (by rfl), account_other (by rfl)]
  rfl

theorem custody_read (l : List Event) (k : Slot) (p : Pcb) (b : Pbuf) (bytes : List Byte) (x : ℕ) :
    custody (read_trace l k p b bytes) x = custody l x := by
  rw [read_trace, custody_other (by rfl), custody_concat, custody_concat]
  split_ifs <;> rfl

theorem tenant_read (l : List Event) (k : Slot) (p : Pcb) (b : Pbuf) (bytes : List Byte) (j : Slot) :
    tenant (read_trace l k p b bytes) j = tenant l j := by
  rw [read_trace, tenant_other (by rfl), tenant_other (by rfl), tenant_other (by rfl)]

/-- Reading from a packet is lawful while the server holds it. -/
theorem lawful_read (hl : Lawful l) (hlife : (account l p).life = .live)
    (hcustody : custody l b.handle = .server p k) {n : ℕ} (htenant : tenant l k = some (n, some p)) :
    Lawful (read_trace l k p b bytes) := by
  have hlooked : account (l ++ [Event.looked b]) p = account l p :=
    account_other rfl ..
  have hcustody' : custody (l ++ [Event.looked b]) b.handle = .server p k := by
    rw [custody_concat, if_pos (by rfl)]
    exact hcustody
  have htenant' : tenant (l ++ [Event.looked b]) k = some (n, some p) :=
    (tenant_other rfl ..).trans htenant
  have hlaw : Lawful (l ++ [Event.looked b]) := lawful_concat.mpr ⟨hl, Or.inr ⟨p, k, hcustody⟩⟩
  refine lawful_called (lawful_concat.mpr ⟨hlaw, ?_⟩) (.inl ?_) _
  · exact ⟨by rw [hlooked]; exact hlife, hcustody', n, htenant'⟩
  · rw [account_concat, if_pos (by rfl), hlooked]
    exact hlife

theorem Touches.read (h : Touches l l' (some p) (some b.handle) k) :
    Touches l (read_trace l' k p b bytes) (some p) (some b.handle) k :=
  ((h.concat (.inl rfl) (.inr rfl) (.inl rfl)).concat (.inr rfl) (.inr rfl) (.inl rfl)).concat
    (.inr rfl) (.inl rfl) (.inl rfl)

end Read

/-- What a read comes to, whether it leaves something of the packet or uses it up: the bytes are
accounted to the PCB, and the connection keeps what follows them. -/
structure Handed (l l' : List Event) (k : Slot) (p : Pcb) (b : Pbuf) (bytes : List Byte)
    (c c' : Connection) : Prop where
  account_eq : account l' p = { account l p with
    handed := (account l p).handed ++ bytes
    credit := (account l p).credit + bytes.length }
  tenant_eq : tenant l' k = tenant l k
  rest : c.rest = bytes ++ c'.rest
  same : c'.pcb = c.pcb ∧ c'.closing = c.closing ∧ c'.replacing = c.replacing ∧
    c'.server = c.server ∧ c'.occupied = c.occupied
  packet : ∀ x, c'.packet = some x → x = b ∧ custody l' b.handle = .server p k ∧ c'.offset ≤ b.tot_len
  unread : c'.packet = none → c'.offset = 0
  kept : ∀ q j, custody l' b.handle = .server q j → j = k ∧ c'.packet = some b
  touches : Touches l l' (some p) (some b.handle) k
  lawful : Lawful l'

section Handed

variable {b : Pbuf} (hpacket : c.packet = some b) (hoffset : c.offset ≤ b.tot_len)
  (hcustody : custody l b.handle = .server p k) (capacity : ℕ)
  (hlaw : Lawful (read_trace l k p b (c.copied b capacity)))
include hpacket hoffset hcustody hlaw

/-- Something of the packet is left. -/
theorem handed_advanced : Handed l (read_trace l k p b (c.copied b capacity)) k p b
    (c.copied b capacity) c (c.advanced b capacity) := by
  obtain ⟨-, hle, hnext⟩ := copied_eq hoffset capacity
  refine ⟨account_read .., tenant_read .., rest_advanced hpacket hoffset capacity,
    ⟨rfl, rfl, rfl, rfl, rfl⟩, ?_, ?_, ?_, .read (.same ..), hlaw⟩
  · intro x hx
    obtain rfl := Option.some.inj (hx.symm.trans hpacket)
    exact ⟨rfl, (custody_read ..).trans hcustody, by rw [hnext]; exact hle⟩
  · intro hnone
    cases hpacket.symm.trans hnone
  · intro q j hj
    rw [custody_read, hcustody] at hj
    cases hj
    exact ⟨rfl, hpacket⟩

/-- The packet is used up, and freed. -/
theorem handed_drained (hend : (c.advanced b capacity).offset = b.tot_len) :
    Handed l (freed_trace (read_trace l k p b (c.copied b capacity)) (some b)) k p b
      (c.copied b capacity) c (c.advanced b capacity).drained := by
  have h := handed_advanced hpacket hoffset hcustody capacity hlaw
  -- nothing is left of a packet that was read to its end
  have hrest : (c.advanced b capacity).rest = [] := by
    rw [Connection.rest, show (c.advanced b capacity).packet = some b from hpacket, Option.elim_some, hend]
    exact List.drop_eq_nil_of_le le_rfl
  refine ⟨(account_freed ..).trans h.account_eq, (tenant_freed ..).trans h.tenant_eq, ?_, h.same, nofun,
    fun _ => rfl, ?_, ?_, ?_⟩
  · rw [h.rest, hrest]
    rfl
  · intro q j hj
    rw [custody_freed _ rfl] at hj
    cases hj
  · exact h.touches.freed fun x hx => congrArg (fun y : Pbuf => some y.handle) (Option.some.inj hx)
  · refine lawful_freed (k := k) hlaw fun x hx => ⟨p, ?_⟩
    obtain rfl := Option.some.inj hx
    exact (custody_read ..).trans hcustody

end Handed

/-- A PCB is not asked to close while its connection is not closing. -/
theorem Resident.unasked (h : Resident l k c p) (hclosing : c.closing = false) :
    (account l p).asked = false := by
  by_contra hne
  rw [(h.asked (Bool.eq_true_of_not_eq_false hne)).1] at hclosing
  cases hclosing

section Hand

variable {b : Pbuf} {bytes : List Byte} {c' : Connection} {a : Bool}

/-- **A slot after a read**: the bytes move from the rest to what was handed over. -/
theorem SlotOk.hand (hs : SlotOk l k c a) (hh : Handed l l' k p b bytes c c') (hpcb : c.pcb = some p)
    (hclosing : c.closing = false) (hreplacing : c.replacing = false)
    (htenant : (tenant l k).isSome = true) : SlotOk l' k c' a := by
  have hattached := hs.attached p hpcb
  have hr := hs.resident hreplacing p hpcb
  have hasked := hr.unasked hclosing
  obtain ⟨hpcb', hclosing', hreplacing', hserver', hoccupied'⟩ := hh.same
  rw [hpcb] at hpcb'
  rw [hclosing] at hclosing'
  rw [hreplacing] at hreplacing'
  refine ⟨?_, ?_, ?_, ?_, ?_, hh.unread, ?_, ?_, ?_, ?_⟩
  · intro x hx
    obtain rfl := Option.some.inj (hpcb'.symm.trans hx)
    rw [hh.account_eq]
    exact ⟨hattached.life, hattached.slot, hattached.arg, hattached.recv, hattached.err, hattached.sent⟩
  · intro x hx
    rw [hserver']
    exact hs.server p hpcb
  · intro ho
    rw [hoccupied'] at ho
    exact absurd (hpcb.symm.trans (hs.empty ho).1) nofun
  · intro x hx
    obtain ⟨rfl, hx, -⟩ := hh.packet x hx
    exact ⟨p, hx, fun _ y hy => Option.some.inj (hpcb'.symm.trans hy)⟩
  · intro x hx
    obtain ⟨rfl, -, hx⟩ := hh.packet x hx
    exact hx
  · rw [hh.tenant_eq]
    exact hs.session
  · -- what was received is still what was handed over and what is left
    intro _ x hx
    obtain rfl := Option.some.inj (hpcb'.symm.trans hx)
    refine ⟨?_, ?_, ?_, ?_⟩
    · rw [hh.tenant_eq]
      exact hr.made
    · intro _ hnone
      rw [hh.tenant_eq] at hnone
      rw [hnone] at htenant
      cases htenant
    · intro _
      rw [hh.account_eq]
      change (account l p).taken = (account l p).handed ++ bytes ++ c'.rest
      rw [hr.rest hasked, hh.rest, List.append_assoc]
    · rw [hh.account_eq]
      exact fun hyes => absurd (hasked.symm.trans hyes) nofun
  · rw [hreplacing']
    exact nofun
  · rw [hclosing']
    exact nofun

/-- The credit follows the bytes. -/
theorem Fair.hand (hfair : Fair (account l p)) (hh : Handed l l' k p b bytes c c')
    (hr : Resident l k c p) (hclosing : c.closing = false) : Fair (account l' p) := by
  have hasked := hr.unasked hclosing
  have hcredit := hfair.credit
  rw [hasked] at hcredit
  rw [hh.account_eq]
  refine ⟨?_, ?_⟩
  · change (account l p).handed ++ bytes <+: (account l p).taken
    rw [hr.rest hasked, hh.rest, ← List.append_assoc]
    exact List.prefix_append _ _
  · change (account l p).credit + bytes.length =
      if (account l p).asked then _ else ((account l p).handed ++ bytes).length
    rw [hasked, hcredit, List.length_append]
    rfl

end Hand

/-- **A read keeps the invariant.** -/
theorem Inv.hand (h : Inv conn alive l) (hpcb : (conn k).pcb = some p) {b : Pbuf}
    (hpacket : (conn k).packet = some b) (hclosing : (conn k).closing = false)
    (hreplacing : (conn k).replacing = false) (ha : alive k = true) (capacity : ℕ)
    (c : Connection) (l' : List Event)
    (hc : c = (conn k).advanced b capacity ∧
        l' = read_trace l k p b ((conn k).copied b capacity) ∨
      ((conn k).advanced b capacity).offset = b.tot_len ∧
        c = ((conn k).advanced b capacity).drained ∧
        l' = freed_trace (read_trace l k p b ((conn k).copied b capacity)) (some b)) :
    Inv (Function.update conn k c) alive l' := by
  have hs := h.slots k
  have hattached := hs.attached p hpcb
  have hr := hs.resident hreplacing p hpcb
  obtain ⟨q, hcustody, hq⟩ := hs.packet b hpacket
  obtain rfl := hq hreplacing p hpcb
  have hsession : (tenant l k).isSome = true := hs.session.trans ha
  obtain ⟨⟨n, pcb⟩, htenant⟩ := Option.isSome_iff_exists.mp hsession
  obtain rfl := hr.made n pcb htenant
  have hlaw : Lawful (read_trace l k q b ((conn k).copied b capacity)) :=
    lawful_read h.lawful hattached.life hcustody htenant
  have hh : Handed l l' k q b ((conn k).copied b capacity) (conn k) c := by
    rcases hc with ⟨rfl, rfl⟩ | ⟨hend, rfl, rfl⟩
    · exact handed_advanced hpacket (hs.offset b hpacket) hcustody capacity hlaw
    · exact handed_drained hpacket (hs.offset b hpacket) hcustody capacity hlaw hend
  have hcpcb : c.pcb = some q := hh.same.1.trans hpcb
  have hslot := hs.hand hh hpcb hclosing hreplacing hsession
  -- the frame rule asks for the slot, the PCB and the pbuf
  refine h.adjust hh.touches hh.lawful hslot ?_ (fun x hx => .inl (hpcb.symm.trans hx)) ?_ ?_
  · rintro x ⟨⟩
    exact .stays hattached (hslot.attached q hcpcb) hcpcb ((h.fair q).hand hh hr hclosing)
  · rintro x ⟨⟩
    refine ⟨fun q' j hj => ?_, fun q' j hj => ?_⟩
    · rw [hcustody] at hj
      cases hj
      rfl
    · obtain ⟨rfl, hkept⟩ := hh.kept q' j hj
      exact ⟨rfl, b, hkept, rfl⟩
  · intro y hy
    obtain rfl := Option.some.inj (hy.symm.trans hpacket)
    exact .inl rfl

/-! ## A connection is closed -/

/-- What `close` records until `tcp_close` answers. -/
def rest_trace (l : List Event) (p : Pcb) (c : Connection) : List Event :=
  c.packet.elim l fun b => l ++ [Event.looked b] ++ [Event.called p (.recved (b.tot_len - c.offset))]

def hang_up_trace (l : List Event) (p : Pcb) (c : Connection) (answer : Err) : List Event :=
  freed_trace (rest_trace l p c) c.packet ++ detach_calls.map (Event.called p) ++
    [Event.called p (.close answer)]

theorem account_rest (l : List Event) (p : Pcb) (c : Connection) :
    account (rest_trace l p c) p =
      { account l p with credit := (account l p).credit + c.rest.length } := by
  cases hpacket : c.packet with
  | none =>
    rw [rest_trace, Connection.rest, hpacket]
    rfl
  | some b =>
    rw [rest_trace, Connection.rest, hpacket, Option.elim_some, Option.elim_some,
      account_called_self, account_other (by rfl), List.length_drop]
    rfl

theorem custody_rest (l : List Event) (p : Pcb) (c : Connection) (x : ℕ) :
    custody (rest_trace l p c) x = custody l x := by
  cases hpacket : c.packet with
  | none => rw [rest_trace, hpacket, Option.elim_none]
  | some b =>
    rw [rest_trace, hpacket, Option.elim_some, custody_other (by rfl), custody_concat]
    split_ifs <;> rfl

theorem tenant_rest (l : List Event) (p : Pcb) (c : Connection) (j : Slot) :
    tenant (rest_trace l p c) j = tenant l j := by
  cases hpacket : c.packet with
  | none => rw [rest_trace, hpacket, Option.elim_none]
  | some b =>
    rw [rest_trace, hpacket, Option.elim_some, tenant_other (by rfl), tenant_other (by rfl)]

theorem account_hang_up (l : List Event) (p : Pcb) (c : Connection) (answer : Err) :
    account (hang_up_trace l p c answer) p =
      ({ account l p with credit := (account l p).credit + c.rest.length }.detached).call
        (.close answer) := by
  rw [hang_up_trace, account_called_self, account_calls, account_freed, account_rest]
  rfl

theorem tenant_hang_up (l : List Event) (p : Pcb) (c : Connection) (answer : Err) (j : Slot) :
    tenant (hang_up_trace l p c answer) j = tenant l j := by
  rw [hang_up_trace, tenant_other (by rfl), tenant_calls, tenant_freed, tenant_rest]

theorem custody_hang_up (l : List Event) (p : Pcb) {b : Pbuf} (h : c.packet = some b)
    (answer : Err) : custody (hang_up_trace l p c answer) b.handle = .freed := by
  rw [hang_up_trace, custody_other (by rfl), custody_calls, custody_freed _ h]

/-- A close is lawful: the packet is credited and freed before the PCB is detached. -/
theorem lawful_hang_up (hl : Lawful l) (hlife : (account l p).life = .live)
    (hb : ∀ b, c.packet = some b → ∃ q, custody l b.handle = .server q k) (answer : Err) :
    Lawful (hang_up_trace l p c answer) := by
  have hrest : Lawful (rest_trace l p c) := by
    cases hpacket : c.packet with
    | none =>
      rw [rest_trace, hpacket]
      exact hl
    | some b =>
      obtain ⟨q, hq⟩ := hb b hpacket
      have hlooked : Lawful (l ++ [Event.looked b]) := lawful_concat.mpr ⟨hl, Or.inr ⟨q, k, hq⟩⟩
      rw [rest_trace, hpacket]
      refine lawful_called hlooked (.inl ?_) _
      rw [account_other (by rfl)]
      exact hlife
  have hfreed : Lawful (freed_trace (rest_trace l p c) c.packet) := by
    refine lawful_freed (k := k) hrest fun b hpacket => ?_
    obtain ⟨q, hq⟩ := hb b hpacket
    exact ⟨q, (custody_rest ..).trans hq⟩
  have hlife' : (account (freed_trace (rest_trace l p c) c.packet) p).life = .live := by
    rw [account_freed, account_rest]
    exact hlife
  obtain ⟨hlaw, hsame⟩ := lawful_calls hfreed (.inl hlife') _ detach_calls_ends
  exact lawful_called hlaw (.inl (hsame.trans hlife')) _

theorem Touches.hang_up {ob : Option ℕ} (h : Touches l l' (some p) ob k)
    (hb : ∀ b, c.packet = some b → ob = some b.handle) (answer : Err) :
    Touches l (hang_up_trace l' p c answer) (some p) ob k := by
  have hrest : Touches l (rest_trace l' p c) (some p) ob k := by
    cases hpacket : c.packet with
    | none =>
      rw [rest_trace, hpacket]
      exact h
    | some b =>
      have hlooked : Touches l (l' ++ [Event.looked b]) (some p) ob k :=
        h.concat (.inl rfl) (.inr (hb b hpacket).symm) (.inl rfl)
      rw [rest_trace, hpacket]
      exact hlooked.concat (.inr rfl) (.inl rfl) (.inl rfl)
  exact ((hrest.freed hb).calls _).concat (.inr rfl) (.inl rfl) (.inl rfl)

/-- A slot that is being closed, with its PCB. -/
structure Closing (conn : Slot → Connection) (k : Slot) (p : Pcb) : Prop where
  pcb : (conn k).pcb = some p
  closing : (conn k).closing = true
  replacing : (conn k).replacing = false

/-- The rest is credited once, by the first `tcp_close`. -/
theorem Inv.credited (h : Inv conn alive l) (hk : Closing conn k p) :
    (account l p).credit + (conn k).rest.length = (account l p).taken.length := by
  have hr := (h.slots k).resident hk.replacing p hk.pcb
  have hfair := (h.fair p).credit
  cases hasked : (account l p).asked with
  | false =>
    rw [hasked] at hfair
    rw [hfair, hr.rest hasked, List.length_append]
    rfl
  | true =>
    rw [hasked] at hfair
    rw [hfair, Connection.rest, (hr.asked hasked).2]
    rfl

theorem Inv.fair_hang_up (h : Inv conn alive l) (hk : Closing conn k p) (answer : Err) :
    Fair (account (hang_up_trace l p (conn k) answer) p) := by
  have hcredit := h.credited hk
  rw [account_hang_up]
  cases answer <;> exact ⟨(h.fair p).handed, hcredit⟩

theorem Inv.touches_hang_up (k : Slot) (conn : Slot → Connection) (l : List Event) (p : Pcb)
    (answer : Err) :
    Touches l (hang_up_trace l p (conn k) answer) (some p) ((conn k).packet.map Pbuf.handle) k :=
  (Touches.same ..).hang_up (fun b hb => by rw [hb]; rfl) answer

theorem Inv.lawful_hang_up (h : Inv conn alive l) (hk : Closing conn k p) (answer : Err) :
    Lawful (hang_up_trace l p (conn k) answer) := by
  refine Tcp.lawful_hang_up (k := k) h.lawful ((h.slots k).attached p hk.pcb).life ?_ answer
  intro b hb
  obtain ⟨q, hq, -⟩ := (h.slots k).packet b hb
  exact ⟨q, hq⟩

/-- `tcp_close` has taken the PCB over. -/
theorem Inv.closed (h : Inv conn alive l) (hk : Closing conn k p) (hc : Empty c) :
    Inv (Function.update conn k c) (Function.update alive k false)
      (hang_up_trace l p (conn k) .ok ++ [Event.cleared k]) := by
  have hs := h.slots k
  refine h.vacate (by rw [hk.pcb]; exact Inv.touches_hang_up k conn l p .ok) (h.lawful_hang_up hk .ok) ?_
    (fun b hb => custody_hang_up l p hb .ok) ?_ hc
  · intro q hq
    obtain rfl := Option.some.inj (hq.symm.trans hk.pcb)
    exact ⟨by rw [account_hang_up]; rfl, h.fair_hang_up hk .ok⟩
  · rw [tenant_hang_up]
    exact hs.vacant (hs.retired hk.closing hk.replacing)

/-- `tcp_close` has failed for good: the connection is aborted. -/
theorem Inv.close_failed (h : Inv conn alive l) (hk : Closing conn k p) (hc : Empty c) {answer : Err}
    (hanswer : answer ≠ .ok) :
    Inv (Function.update conn k c) (Function.update alive k false)
      (abort_trace (hang_up_trace l p (conn k) answer) p ++ [Event.cleared k]) := by
  have hs := h.slots k
  have hlife : (account (hang_up_trace l p (conn k) answer) p).life = .live := by
    rw [account_hang_up, life_call _ (by cases answer <;> first | rfl | exact absurd rfl hanswer)]
    exact (hs.attached p hk.pcb).life
  refine h.vacate (by rw [hk.pcb]; exact (Inv.touches_hang_up k conn l p answer).abort)
    (lawful_abort (h.lawful_hang_up hk answer) hlife) ?_
    (fun b hb => (custody_abort ..).trans (custody_hang_up l p hb answer)) ?_ hc
  · intro q hq
    obtain rfl := Option.some.inj (hq.symm.trans hk.pcb)
    rw [account_abort]
    exact ⟨rfl, (h.fair_hang_up hk answer).abort⟩
  · rw [tenant_abort, tenant_hang_up]
    exact hs.vacant (hs.retired hk.closing hk.replacing)

/-- `tcp_close` has to be tried again: the callbacks are set again, and the rest is given up. -/
theorem Inv.close_again (h : Inv conn alive l) (hk : Closing conn k p) :
    Inv (Function.update conn k (conn k).drained) alive
      (hang_up_trace l p (conn k) .mem ++ (attach_calls k).map (Event.called p)) := by
  have hs := h.slots k
  have hattached := hs.attached p hk.pcb
  have hr := hs.resident hk.replacing p hk.pcb
  set l' := hang_up_trace l p (conn k) .mem ++ (attach_calls k).map (Event.called p) with hl'
  have haccount : account l' p = { account l p with
      credit := (account l p).credit + (conn k).rest.length
      asked := true
      arg := some k, recv := true, err := true, sent := true } := by
    rw [hl', account_calls, account_hang_up]
    rfl
  have hlife : (account (hang_up_trace l p (conn k) .mem) p).life = .live := by
    rw [account_hang_up]
    exact hattached.life
  have htenant : tenant l' k = tenant l k := by rw [hl', tenant_calls, tenant_hang_up]
  have htouch : Touches l l' (some p) ((conn k).packet.map Pbuf.handle) k :=
    (Inv.touches_hang_up k conn l p .mem).calls _
  have hlaw : Lawful l' :=
    (lawful_calls (h.lawful_hang_up hk .mem) (.inl hlife) _ (attach_calls_ends k)).1
  have hsame : ∀ q, (conn k).drained.pcb = some q → q = p :=
    fun q hq => Option.some.inj (hq.symm.trans hk.pcb)
  have hslot : SlotOk l' k (conn k).drained (alive k) := by
    refine ⟨?_, hs.server, fun ho => ?_, nofun, nofun, fun _ => rfl, ?_, ?_, fun hc => ?_, hs.retired⟩
    · intro q hq
      rw [hsame q hq, haccount]
      exact ⟨hattached.life, hattached.slot, rfl, rfl, rfl, rfl⟩
    · exact absurd (hk.pcb.symm.trans (hs.empty ho).1) nofun
    · rw [htenant]
      exact hs.session
    · intro _ q hq
      rw [hsame q hq]
      refine ⟨?_, fun hc => ?_, ?_, ?_⟩
      · rw [htenant]
        exact hr.made
      · exact absurd (hk.closing.symm.trans hc) nofun
      · rw [haccount]
        exact nofun
      -- the slot is closing, and its packet is gone
      · exact fun _ => ⟨hk.closing, rfl⟩
    · exact absurd (hk.replacing.symm.trans hc) nofun
  refine h.adjust htouch hlaw hslot ?_ (fun q hq => .inl (hk.pcb.symm.trans hq))
    (hs.freed fun b hb => (custody_calls ..).trans (custody_hang_up l p hb .mem)) ?_
  · rintro q ⟨⟩
    refine .stays hattached (hslot.attached p hk.pcb) hk.pcb ?_
    rw [haccount]
    exact ⟨(h.fair p).handed, h.credited hk⟩
  · intro y hy
    rw [hy]
    exact .inl rfl

/-! ## A connection is accepted -/

/-- What `accept` makes of a connection, and records. -/
def Connection.reserved (c : Connection) (p : Pcb) (clock : UInt32) : Connection :=
  { c with replacing := c.occupied, occupied := true, server := true, pcb := some p, accepted_at := clock }

def accept_trace (l : List Event) (k : Slot) (p : Pcb) : List Event :=
  l ++ [Event.offered p] ++ (attach_calls k).map (Event.called p) ++
    [Event.called p .nagle_disable] ++ [Event.accepted p k]

/-- A PCB that lwIP offers for the first time. -/
theorem Inv.offered (h : Inv conn alive l) (hnew : (account l p).life = .unknown) :
    Lawful (l ++ [Event.offered p]) ∧ account (l ++ [Event.offered p]) p = { life := .offered } := by
  refine ⟨lawful_concat.mpr ⟨h.lawful, hnew⟩, ?_⟩
  rw [account_concat, if_pos (by rfl), h.fresh p hnew]
  rfl

/-- A PCB is put into a slot that has none. -/
theorem Inv.accept (h : Inv conn alive l) (hnew : (account l p).life = .unknown)
    (hvacant : (conn k).pcb = none) (clock : UInt32) :
    Inv (Function.update conn k ((conn k).reserved p clock)) alive (accept_trace l k p) := by
  have hs := h.slots k
  obtain ⟨hlaw0, haccount0⟩ := h.offered hnew
  have hgiven : Given (l ++ [Event.offered p]) p := ⟨l, [], (List.append_nil _).symm⟩
  obtain ⟨hlaw1, -⟩ := lawful_calls hlaw0 (.inr hgiven) _ (attach_calls_ends k)
  have hlaw2 := lawful_called hlaw1 (.inr (hgiven.calls _)) .nagle_disable
  set l₂ := l ++ [Event.offered p] ++ (attach_calls k).map (Event.called p) ++
    [Event.called p .nagle_disable] with hl₂
  have haccount2 : account l₂ p =
      { life := .offered, arg := some k, recv := true, err := true, sent := true } := by
    rw [hl₂, account_called_self, account_calls, haccount0]
    rfl
  have haccount : account (accept_trace l k p) p =
      { life := .live, slot := some k, arg := some k, recv := true, err := true, sent := true } := by
    rw [accept_trace, account_concat, if_pos (by rfl), ← hl₂, haccount2]
    rfl
  have htouch2 : Touches l l₂ (some p) none k :=
    ((((Touches.same l (some p) none k).concat (.inr rfl) (.inl rfl) (.inl rfl)).calls _).concat
      (.inr rfl) (.inl rfl) (.inl rfl))
  have htouch : Touches l (accept_trace l k p) (some p) none k :=
    htouch2.concat (.inr rfl) (.inl rfl) (.inl rfl)
  have hlaw : Lawful (accept_trace l k p) := by
    refine lawful_concat.mpr ⟨hlaw2, ?_, fun q hlive hslot => ?_⟩
    · rw [haccount2]
    · by_cases hq : p = q
      · rw [← hq, haccount2] at hlive
        cases hlive
      · have hne : some p ≠ some q := fun heq => hq (Option.some.inj heq)
        rw [htouch2.account q hne] at hlive hslot
        obtain ⟨j, hj, hpcb⟩ := h.live q hlive
        obtain rfl := Option.some.inj (hslot.symm.trans hj)
        exact absurd (hvacant.symm.trans hpcb) nofun
  have htenant : tenant (accept_trace l k p) k = tenant l k := by
    rw [accept_trace, tenant_other (by rfl), tenant_other (by rfl), tenant_calls,
      tenant_other (by rfl)]
  have hcustody : ∀ x, custody (accept_trace l k p) x = custody l x := fun x => htouch.custody x nofun
  have hsame : ∀ q, ((conn k).reserved p clock).pcb = some q → q = p :=
    fun q hq => (Option.some.inj hq).symm
  have hslot : SlotOk (accept_trace l k p) k ((conn k).reserved p clock) (alive k) := by
    refine ⟨?_, fun _ _ => rfl, nofun, ?_, hs.offset, hs.unread, ?_, ?_, ?_, ?_⟩
    · intro q hq
      rw [hsame q hq, haccount]
      exact ⟨rfl, rfl, rfl, rfl, rfl, rfl⟩
    · intro b hb
      obtain ⟨q, hq, -⟩ := hs.packet b hb
      refine ⟨q, (hcustody _).trans hq, fun ho => ?_⟩
      exact absurd ((hs.empty ho).2.1.symm.trans hb) nofun
    · rw [htenant]
      exact hs.session
    · -- the slot was empty: there is nothing that is not the new PCB's
      intro ho q hq
      obtain ⟨-, hpacket, halive, -, -⟩ := hs.empty ho
      have hnone := hs.vacant halive
      have hrest : ((conn k).reserved p clock).rest = [] := by
        rw [Connection.rest, show ((conn k).reserved p clock).packet = none from hpacket]
        rfl
      rw [hsame q hq]
      refine ⟨?_, ?_, ?_, ?_⟩
      · rw [htenant, hnone]
        exact nofun
      · rw [haccount]
        exact fun _ _ => rfl
      · rw [haccount, hrest]
        exact fun _ => rfl
      · rw [haccount]
        exact nofun
    · intro _ q hq
      rw [hsame q hq, haccount]
      exact ⟨rfl, rfl, rfl, rfl, rfl⟩
    · intro hclosing ho
      exact absurd ((hs.empty ho).2.2.2.1.symm.trans hclosing) nofun
  refine h.adjust htouch hlaw hslot ?_ (fun q hq => absurd (hvacant.symm.trans hq) nofun) nofun
    (fun y hy => .inr hy)
  rintro q ⟨⟩
  refine ⟨fun hlive => absurd (hnew.symm.trans hlive) nofun, fun _ => ⟨?_, rfl⟩, ?_, ?_⟩
  · rw [haccount]
  · rw [haccount]
    exact ⟨List.prefix_rfl, rfl⟩
  · rw [haccount]
    exact nofun

/-- A PCB is turned away. -/
theorem Inv.reject (h : Inv conn alive l) (hnew : (account l p).life = .unknown) :
    Inv conn alive (l ++ [Event.offered p] ++ [Event.called p .abort]) := by
  obtain ⟨hlaw0, haccount0⟩ := h.offered hnew
  set l' := l ++ [Event.offered p] ++ [Event.called p .abort] with hl'
  have haccount : account l' p = { life := .gone } := by
    rw [hl', account_called_self, haccount0]
    rfl
  have htouch : Touches l l' (some p) none 0 :=
    ((Touches.same l (some p) none 0).concat (.inr rfl) (.inl rfl) (.inl rfl)).concat (.inr rfl)
      (.inl rfl) (.inl rfl)
  have hlaw : Lawful l' := lawful_called hlaw0 (.inr ⟨l, [], (List.append_nil _).symm⟩) _
  have hother : ∀ q, (conn 0).pcb = some q → account l' q = account l q := by
    intro q hq
    refine htouch.account q ?_
    rintro ⟨⟩
    exact absurd (hnew.symm.trans ((h.slots 0).attached p hq).life) nofun
  have htenant : tenant l' 0 = tenant l 0 := by
    rw [hl', tenant_other (by rfl), tenant_other (by rfl)]
  have hslot : SlotOk l' 0 (conn 0) (alive 0) :=
    (h.slots 0).congr hother (fun b _ => htouch.custody b.handle nofun) htenant
  have hadjust := h.adjust htouch hlaw hslot ?_ (fun q hq => .inr hq) nofun (fun y hy => .inr hy)
  · rwa [Function.update_eq_self] at hadjust
  · rintro q ⟨⟩
    refine ⟨fun hlive => absurd (hnew.symm.trans hlive) nofun, fun hlive => ?_, ?_, ?_⟩
    · rw [haccount] at hlive
      cases hlive
    · rw [haccount]
      exact ⟨List.prefix_rfl, rfl⟩
    · rw [haccount]
      exact nofun

/-! ## Data arrives -/

section Receive

variable {b : Pbuf} (h : Inv conn alive l) (hpcb : (conn k).pcb = some p)
include h hpcb

/-- lwIP calls `receive`. -/
theorem Inv.receiving (packet : Option Pbuf)
    (hstack : ∀ b ∈ packet, custody l b.handle = .stack) :
    Lawful (l ++ [Event.receiving p packet]) ∧
      account (l ++ [Event.receiving p packet]) p = account l p ∧
      ∀ b ∈ packet, custody (l ++ [Event.receiving p packet]) b.handle = .callback := by
  have hlife := ((h.slots k).attached p hpcb).life
  refine ⟨lawful_concat.mpr ⟨h.lawful, hlife, hstack⟩, ?_, fun b hb => ?_⟩
  · rw [account_concat, if_pos (by rfl)]
    rfl
  · have hb' : packet = some b := hb
    subst hb'
    rw [custody_concat, if_pos (by rfl)]
    rfl

/-- The end of a stream: the connection is aborted. -/
theorem Inv.receive_end :
    Inv (Function.update conn k (conn k).lost) alive
      (abort_trace (l ++ [Event.receiving p none]) p ++ [Event.returned p k none .abrt]) := by
  have hlife := ((h.slots k).attached p hpcb).life
  obtain ⟨hlaw0, haccount0, -⟩ := h.receiving hpcb none nofun
  have hlaw1 := lawful_abort hlaw0 (by rw [haccount0]; exact hlife)
  have haccount : account (abort_trace (l ++ [Event.receiving p none]) p ++ [Event.returned p k none .abrt]) p =
      { (account l p).detached with life := .gone } := by
    rw [account_concat, if_pos (by rfl), account_abort, haccount0]
    rfl
  refine h.lose hpcb none ?_ ?_ ?_ ?_ nofun
  · exact (((Touches.same l (some p) none k).concat (.inr rfl) (.inl rfl) (.inl rfl)).abort).concat
      (.inr rfl) (.inl rfl) (.inl rfl)
  · refine lawful_concat.mpr ⟨hlaw1, ?_, .inl ⟨rfl, by rw [account_abort], nofun⟩⟩
    exact ⟨l, detach_calls.map (Event.called p) ++ [Event.called p .abort], by simp [abort_trace], by simp,
      by simp⟩
  · rw [tenant_other (by rfl), tenant_abort, tenant_other (by rfl)]
  · rw [haccount]
    exact ⟨rfl, (h.fair p).abort⟩

/-- An error: the pbuf that came with it is freed and the connection is aborted. -/
theorem Inv.receive_error (hstack : custody l b.handle = .stack) :
    Inv (Function.update conn k (conn k).lost) alive
      (abort_trace (l ++ [Event.receiving p (some b)] ++ [Event.freed b]) p ++
        [Event.returned p k (some b) .abrt]) := by
  have hlife := ((h.slots k).attached p hpcb).life
  obtain ⟨hlaw0, haccount0, hcustody0⟩ := h.receiving hpcb (some b) (by
    rintro x ⟨⟩
    exact hstack)
  have hlaw1 : Lawful (l ++ [Event.receiving p (some b)] ++ [Event.freed b]) :=
    lawful_concat.mpr ⟨hlaw0, Or.inl (hcustody0 b rfl)⟩
  have haccount1 : account (l ++ [Event.receiving p (some b)] ++ [Event.freed b]) p = account l p := by
    rw [account_other (by rfl), haccount0]
  have hcustody1 : custody (l ++ [Event.receiving p (some b)] ++ [Event.freed b]) b.handle = .freed := by
    rw [custody_concat, if_pos (by rfl)]
    rfl
  have hlaw2 := lawful_abort hlaw1 (by rw [haccount1]; exact hlife)
  set l₂ := abort_trace (l ++ [Event.receiving p (some b)] ++ [Event.freed b]) p with hl₂
  have hcustody2 : custody l₂ b.handle = .freed := by rw [hl₂, custody_abort, hcustody1]
  have haccount2 : account l₂ p = { (account l p).detached with life := .gone } := by
    rw [hl₂, account_abort, haccount1]
  have htouch : Touches l (l₂ ++ [Event.returned p k (some b) .abrt]) (some p) (some b.handle) k :=
    ((((Touches.same l (some p) (some b.handle) k).concat (.inr rfl) (.inr rfl) (.inl rfl)).concat
      (.inl rfl) (.inr rfl) (.inl rfl)).abort).concat (.inr rfl) (.inr rfl) (.inl rfl)
  refine h.lose hpcb _ htouch ?_ ?_ ?_ ?_
  · refine lawful_concat.mpr ⟨hlaw2, ?_, .inl ⟨rfl, by rw [haccount2], ?_⟩⟩
    · exact ⟨l, [Event.freed b] ++ detach_calls.map (Event.called p) ++ [Event.called p .abort],
        by simp [hl₂, abort_trace], by simp, by simp⟩
    · rintro x ⟨⟩
      exact hcustody2
  · rw [tenant_other (by rfl), hl₂, tenant_abort, tenant_other (by rfl), tenant_other (by rfl)]
  · rw [account_concat, if_pos (by rfl), haccount2]
    exact ⟨rfl, (h.fair p).abort⟩
  · rintro x ⟨⟩ q j
    refine ⟨fun hserver => ?_, fun hserver => ?_⟩
    · rw [hstack] at hserver
      cases hserver
    · rw [custody_concat, if_pos (by rfl), hcustody2] at hserver
      cases hserver

/-- A pbuf is refused and stays lwIP's. -/
theorem Inv.receive_refused (hstack : custody l b.handle = .stack) :
    Inv conn alive (l ++ [Event.receiving p (some b)] ++ [Event.returned p k (some b) .mem]) := by
  have hlife := ((h.slots k).attached p hpcb).life
  obtain ⟨hlaw0, haccount0, hcustody0⟩ := h.receiving hpcb (some b) (by
    rintro x ⟨⟩
    exact hstack)
  refine h.congr ?_ (fun q => ?_) (fun x => ?_) (fun j => ?_)
  · refine lawful_concat.mpr ⟨hlaw0, ⟨l, [], by simp, by simp, by simp⟩, .inr ⟨.inr rfl, ?_, b, rfl,
      hcustody0 b rfl⟩⟩
    rw [haccount0]
    exact hlife
  · rw [account_concat, account_concat]
    split_ifs <;> rfl
  · by_cases hx : b.handle = x
    · subst hx
      rw [custody_concat, if_pos (by rfl), hstack]
      rfl
    · have hne : some b.handle ≠ some x := fun heq => hx (Option.some.inj heq)
      rw [custody_concat, if_neg (by exact hne), custody_concat, if_neg (by exact hne)]
  · rw [tenant_other (by rfl), tenant_other (by rfl)]

/-- What `receive` makes of a connection. -/
def Connection.holding (c : Connection) (b : Pbuf) : Connection := { c with packet := some b }

/-- A pbuf is taken. -/
theorem Inv.receive_taken (hstack : custody l b.handle = .stack) (hpacket : (conn k).packet = none)
    (hclosing : (conn k).closing = false) (hreplacing : (conn k).replacing = false) :
    Inv (Function.update conn k ((conn k).holding b)) alive
      (l ++ [Event.receiving p (some b)] ++ [Event.looked b] ++ [Event.returned p k (some b) .ok]) := by
  have hs := h.slots k
  have hattached := hs.attached p hpcb
  have hr := hs.resident hreplacing p hpcb
  -- a close that was asked for would have set `closing`
  have hasked : (account l p).asked = false := by
    by_contra hne
    exact absurd ((hr.asked (Bool.eq_true_of_not_eq_false hne)).1.symm.trans hclosing) nofun
  obtain ⟨hlaw0, haccount0, hcustody0⟩ := h.receiving hpcb (some b) (by
    rintro x ⟨⟩
    exact hstack)
  have hlaw1 : Lawful (l ++ [Event.receiving p (some b)] ++ [Event.looked b]) :=
    lawful_concat.mpr ⟨hlaw0, Or.inl (hcustody0 b rfl)⟩
  have haccount1 : account (l ++ [Event.receiving p (some b)] ++ [Event.looked b]) p = account l p := by
    rw [account_other (by rfl), haccount0]
  have hcustody1 : custody (l ++ [Event.receiving p (some b)] ++ [Event.looked b]) b.handle = .callback := by
    rw [custody_concat, if_pos (by rfl), hcustody0 b rfl]
    rfl
  set l' := l ++ [Event.receiving p (some b)] ++ [Event.looked b] ++ [Event.returned p k (some b) .ok] with hl'
  have haccount : account l' p = { account l p with taken := (account l p).taken ++ b.bytes } := by
    rw [hl', account_concat, if_pos (by rfl), haccount1]
    rfl
  have hcustody : custody l' b.handle = .server p k := by
    rw [hl', custody_concat, if_pos (by rfl)]
    rfl
  have htenant : tenant l' k = tenant l k := by
    rw [hl', tenant_other (by rfl), tenant_other (by rfl), tenant_other (by rfl)]
  have hlaw : Lawful l' := by
    refine lawful_concat.mpr ⟨hlaw1, ⟨l, [Event.looked b], by simp, by simp, by simp⟩, .inr ⟨.inl rfl, ?_, b, rfl,
      hcustody1⟩⟩
    rw [haccount1]
    exact hattached.life
  have htouch : Touches l l' (some p) (some b.handle) k :=
    (((Touches.same l (some p) (some b.handle) k).concat (.inr rfl) (.inr rfl) (.inl rfl)).concat
      (.inl rfl) (.inr rfl) (.inl rfl)).concat (.inr rfl) (.inr rfl) (.inl rfl)
  have hsame : ∀ q, (conn k).pcb = some q → q = p := fun q hq => Option.some.inj (hq.symm.trans hpcb)
  have hzero : (conn k).offset = 0 := hs.unread hpacket
  have hrest : ((conn k).holding b).rest = b.bytes := by
    rw [Connection.rest, show ((conn k).holding b).packet = some b from rfl, Option.elim_some,
      show ((conn k).holding b).offset = 0 from hzero, List.drop_zero]
  have hnothing : (conn k).rest = [] := by
    rw [Connection.rest, hpacket]
    rfl
  -- before the packet the peer's bytes were all handed on, so the rest is the packet
  have htaken : (account l p).taken = (account l p).handed := by
    rw [hr.rest hasked, hnothing, List.append_nil]
  have hslot : SlotOk l' k ((conn k).holding b) (alive k) := by
    refine ⟨?_, hs.server, fun ho => ?_, ?_, ?_, nofun, ?_, ?_, fun hc => ?_, hs.retired⟩
    · intro q hq
      rw [hsame q hq, haccount]
      exact ⟨hattached.life, hattached.slot, hattached.arg, hattached.recv, hattached.err,
        hattached.sent⟩
    · exact absurd (hpcb.symm.trans (hs.empty ho).1) nofun
    · rintro x ⟨⟩
      exact ⟨p, hcustody, fun _ q hq => (hsame q hq).symm⟩
    · rintro x ⟨⟩
      rw [show ((conn k).holding b).offset = 0 from hzero]
      exact Nat.zero_le _
    · rw [htenant]
      exact hs.session
    · intro _ q hq
      rw [hsame q hq]
      refine ⟨?_, ?_, ?_, ?_⟩
      · rw [htenant]
        exact hr.made
      · rw [htenant, haccount]
        exact hr.served
      · rw [haccount, hrest]
        change _ → (account l p).taken ++ b.bytes = (account l p).handed ++ b.bytes
        rw [htaken]
        exact fun _ => rfl
      · rw [haccount]
        exact fun hyes => absurd (hasked.symm.trans hyes) nofun
    · exact absurd (hreplacing.symm.trans hc) nofun
  refine h.adjust htouch hlaw hslot ?_ (fun q hq => .inl (hpcb.symm.trans hq)) ?_
    (fun y hy => absurd (hpacket.symm.trans hy) nofun)
  · rintro q ⟨⟩
    refine .stays hattached (hslot.attached p hpcb) hpcb ?_
    rw [haccount]
    have hcredit := (h.fair p).credit
    rw [hasked] at hcredit
    refine ⟨(h.fair p).handed.trans (List.prefix_append _ _), ?_⟩
    change (account l p).credit = if (account l p).asked then _ else (account l p).handed.length
    rw [hasked]
    exact hcredit
  · rintro x ⟨⟩
    refine ⟨fun q j hj => ?_, fun q j hj => ?_⟩
    · rw [hstack] at hj
      cases hj
    · rw [hcustody] at hj
      cases hj
      exact ⟨rfl, b, rfl, rfl⟩

end Receive

end Actions

end Firmingo.Tcp
