/-
What a session can do, as an abstract machine.

`Session::poll` has dozens of paths, but on the state that ownership and byte
integrity are about they are made of eleven actions: bytes enter the decoder or
leave the output buffer, a control frame is answered, the channel is acquired or
released, a byte moves one buffer further, the session stops. `Act` lists them
with their guards, over the two halves of that state: the `Party` (one session)
and what it `Shared`s with the others (the channel). The backend and the upload
service do not appear: every answer they can give is one of the choices an action
leaves open.

The code's refinement of this machine is `Refine.lean`; invariants are proved
here once for each action.
-/
import Firmingo.Session

set_option autoImplicit false

open Octets

namespace Firmingo.Machine

open Protocol

/-- The session half. -/
structure Party where
  token : UInt32
  decoder : Decoder
  output : List Byte
  data_offset : ℕ
  owned : Bool
  result : SessionResult

/-- The channel half. -/
structure Shared where
  owner : UInt32
  to_backend : List Byte
  to_peer : List Byte
  rx_bytes : ℕ
  tx_bytes : ℕ
  history : List Event

/-- One session and its channel. -/
structure Config where
  party : Party
  shared : Shared

/-- Append to the history. -/
def Shared.log (s : Shared) (events : List Event) : Shared :=
  { s with history := s.history ++ events }

/-- The events of a tenure's start and of its end. -/
def opening (t : UInt32) : List Event := [.discard t, .opened t]
def ending (t : UInt32) : List Event := [.closed t, .discard t]

/-- The channel without an owner. -/
def Shared.vacant (s : Shared) : Shared :=
  { s with owner := 0, to_backend := [], to_peer := [] }

/-- The data a READY serial frame still holds for the stream. -/
def Party.held (p : Party) : List Byte :=
  if p.decoder.state = .ready ∧ p.decoder.type = .serial then
    p.decoder.payload.drop (4 + p.data_offset)
  else []

/-- A frame the session may send: a correlated response, or serial data of channel 1. -/
def Sendable (f : Frame) : Prop :=
  (f.type = .response ∧ f.request ≠ 0 ∧ f.request < 2 ^ 32) ∨
    (f.type = .serial ∧ f.request = 0 ∧
      ∃ data, f.payload = bytes32_be 1 ++ data ∧ 1 ≤ data.length ∧ data.length ≤ 256)

/-- The actions. -/
inductive Act : Config → Config → Prop
  /-- Bytes from the transport enter the decoder. -/
  | feed (p : Party) (s : Shared) (bytes : List Byte)
      (running : p.result = .running) (incomplete : p.decoder.state = .incomplete) :
      Act ⟨p, s⟩ ⟨{ p with decoder := p.decoder.feed bytes },
        s.log (if (p.decoder.feed bytes).state = .ready then
          [.received p.token (p.decoder.feed bytes).frame] else [])⟩
  /-- The transport takes part of the output. -/
  | send (p : Party) (s : Shared) (n : ℕ)
      (running : p.result = .running) (fits : n ≤ p.output.length) :
      Act ⟨p, s⟩ ⟨{ p with output := p.output.drop n }, s.log [.sent p.token (p.output.take n)]⟩
  /-- A control frame is consumed and answered, under the limit it leaves in force. -/
  | answer (p : Party) (s : Shared) (payload : List Byte) (limit : ℕ)
      (running : p.result = .running) (ready : p.decoder.state = .ready)
      (control : p.decoder.type = .request ∨ p.decoder.type = .upload) (idle : p.output = [])
      (limit_ge : min_offer ≤ limit) (limit_le : limit ≤ max_payload)
      (fits : payload.length ≤ limit) (buffer : payload.length ≤ Session.response_capacity) :
      Act ⟨p, s⟩ ⟨{ p with
          decoder := { p.decoder.reset with limit := limit }
          output := wire ⟨.response, p.decoder.request, payload⟩ },
        s.log [.queued p.token ⟨.response, p.decoder.request, payload⟩ limit]⟩
  /-- The channel is acquired, on a control frame. -/
  | acquire (p : Party) (s : Shared)
      (running : p.result = .running) (token : p.token ≠ 0) (free : s.owner = 0)
      (ready : p.decoder.state = .ready) (control : p.decoder.type ≠ .serial) :
      Act ⟨p, s⟩ ⟨{ p with owned := true },
        { s.vacant with owner := p.token, rx_bytes := 0, tx_bytes := 0 }.log (opening p.token)⟩
  /-- The channel is released, or lost to a failure. -/
  | release (p : Party) (s : Shared) (owned : p.owned = true) :
      Act ⟨p, s⟩ ⟨{ p with owned := false }, s.vacant.log (ending p.token)⟩
  /-- The session stops, with its buffers empty; a hello may have set the limit first. -/
  | stop (p : Party) (s : Shared) (result : SessionResult) (limit : ℕ) (unowned : p.owned = false)
      (limit_ge : min_offer ≤ limit) (limit_le : limit ≤ max_payload)
      (terminal : result ≠ .running) :
      Act ⟨p, s⟩ ⟨{ p with
        decoder := { p.decoder.reset with limit := limit }
        output := []
        data_offset := 0
        result := result }, s⟩
  /-- The stream takes data from the frame in the decoder; the frame goes with its
  last byte. -/
  | pull (p : Party) (s : Shared) (count : ℕ)
      (running : p.result = .running) (owned : p.owned = true) (empty : s.to_backend = [])
      (ready : p.decoder.state = .ready) (serial : p.decoder.type = .serial)
      (count_eq : count = min Stream.capacity (p.decoder.size - 4 - p.data_offset)) :
      Act ⟨p, s⟩ ⟨if p.data_offset + count = p.decoder.size - 4 then
          { p with decoder := p.decoder.reset, data_offset := 0 }
        else { p with data_offset := p.data_offset + count },
        { s with to_backend := p.held.take count }⟩
  /-- The backend takes part of what is pending for it. -/
  | push (p : Party) (s : Shared) (n : ℕ)
      (running : p.result = .running) (owned : p.owned = true) (fits : n ≤ s.to_backend.length) :
      Act ⟨p, s⟩ ⟨p, { s with
        to_backend := s.to_backend.drop n
        rx_bytes := add s.rx_bytes n }.log [.backend_write (s.to_backend.take n)]⟩
  /-- The stream reads from the backend. -/
  | fetch (p : Party) (s : Shared) (bytes : List Byte)
      (running : p.result = .running) (owned : p.owned = true) (empty : s.to_peer = [])
      (fits : bytes.length ≤ Stream.capacity) :
      Act ⟨p, s⟩ ⟨p, { s with
        to_peer := bytes
        tx_bytes := add s.tx_bytes bytes.length }.log [.backend_read bytes]⟩
  /-- All that is pending for the peer becomes one serial frame. -/
  | emit (p : Party) (s : Shared)
      (running : p.result = .running) (owned : p.owned = true) (some_data : s.to_peer ≠ [])
      (idle : p.output = []) :
      Act ⟨p, s⟩ ⟨{ p with output := wire ⟨.serial, 0, bytes32_be 1 ++ s.to_peer⟩ },
        { s with to_peer := [] }.log
          [.queued p.token ⟨.serial, 0, bytes32_be 1 ++ s.to_peer⟩ p.decoder.limit]⟩

abbrev Acts : Config → Config → Prop := Relation.ReflTransGen Act

/-- A new session, or a new frame for one. -/
def arrives : Event → Bool
  | .created _ | .received _ _ => true
  | _ => false

/-- An action that takes nothing from the transport. -/
structure Inner (k k' : Config) : Prop where
  act : Act k k'
  deaf : ∃ more, k'.shared.history = k.shared.history ++ more ∧ ∀ e ∈ more, arrives e = false

abbrev InnerActs : Config → Config → Prop := Relation.ReflTransGen Inner

variable {k k' : Config}

theorem InnerActs.acts (h : InnerActs k k') : Acts k k' := by
  induction h with
  | refl => exact .refl
  | tail _ hinner ih => exact .tail ih hinner.act

/-- Nothing arrives in a run of such actions. -/
theorem InnerActs.deaf (h : InnerActs k k') :
    ∃ more, k'.shared.history = k.shared.history ++ more ∧ ∀ e ∈ more, arrives e = false := by
  induction h with
  | refl => exact ⟨[], by simp, by simp⟩
  | tail _ hinner ih =>
    obtain ⟨more, hmore, hdeaf⟩ := ih
    obtain ⟨more', hmore', hdeaf'⟩ := hinner.deaf
    refine ⟨more ++ more', by rw [hmore', hmore, List.append_assoc], ?_⟩
    intro e he
    rcases List.mem_append.mp he with he | he
    · exact hdeaf e he
    · exact hdeaf' e he

/-! ## The invariant of one session -/

/-- What holds of a session and its channel between any two actions. -/
structure Inv (k : Config) : Prop where
  wf : k.party.decoder.Wf
  token : k.party.token ≠ 0
  owned_iff : k.party.owned = true ↔ k.shared.owner = k.party.token
  terminal : k.party.result ≠ .running → k.party.owned = false ∧ k.party.output = []
  offset : k.party.data_offset = 0 ∨ k.party.decoder.state = .ready ∧
    k.party.decoder.type = .serial ∧ k.party.data_offset + 4 < k.party.decoder.size
  to_peer_le : k.shared.to_peer.length ≤ Stream.capacity

/-- A limit an answer leaves in force keeps the decoder well formed. -/
theorem wf_reset_limit (d : Decoder) {limit : ℕ} (hge : min_offer ≤ limit)
    (hle : limit ≤ max_payload) : ({ d.reset with limit := limit } : Decoder).Wf where
  limit_ge := hge
  limit_le := hle
  incomplete := fun _ => .inl (by simp [header_size])
  ready := fun h => by cases h

/-- Outside a READY serial frame nothing is partly consumed. -/
theorem Inv.offset_eq_zero (hi : Inv k)
    (h : k.party.decoder.state ≠ .ready ∨ k.party.decoder.type ≠ .serial) : k.party.data_offset = 0 := by
  rcases hi.offset with h0 | ⟨hr, hs, -⟩
  · exact h0
  · rcases h with hn | hn
    · exact absurd hr hn
    · exact absurd hs hn

/-- A control frame is not a serial frame. -/
theorem ne_serial_of_control {type : FrameType} (h : type = .request ∨ type = .upload) :
    type ≠ .serial := by
  rcases h with h | h <;> rw [h] <;> decide

/-- **Every action keeps the invariant.** -/
theorem Act.inv (h : Act k k') (hi : Inv k) : Inv k' := by
  have hrun : ∀ {p : Party} {q : Prop}, p.result = .running → (p.result ≠ .running → q) :=
    fun hr hn => absurd hr hn
  cases h with
  | feed p s bytes running incomplete =>
    refine ⟨hi.wf.feed bytes, hi.token, hi.owned_iff, hrun running, .inl ?_, hi.to_peer_le⟩
    exact hi.offset_eq_zero (.inl (by rw [incomplete]; decide))
  | send p s n running fits =>
    exact ⟨hi.wf, hi.token, hi.owned_iff, hrun running, hi.offset, hi.to_peer_le⟩
  | answer p s payload limit running ready control idle limit_ge limit_le fits buffer =>
    exact ⟨wf_reset_limit _ limit_ge limit_le, hi.token, hi.owned_iff, hrun running,
      .inl (hi.offset_eq_zero (.inr (ne_serial_of_control control))), hi.to_peer_le⟩
  | acquire p s running token free ready control =>
    exact ⟨hi.wf, hi.token, by simp [Shared.log], hrun running, hi.offset, Nat.zero_le _⟩
  | release p s owned =>
    refine ⟨hi.wf, hi.token, ?_, fun hn => ⟨rfl, (hi.terminal hn).2⟩, hi.offset, Nat.zero_le _⟩
    simp only [Bool.false_eq_true, false_iff]
    exact fun h0 => hi.token h0.symm
  | stop p s result limit unowned limit_ge limit_le terminal =>
    exact ⟨wf_reset_limit _ limit_ge limit_le, hi.token, hi.owned_iff, fun _ => ⟨unowned, rfl⟩,
      .inl rfl, hi.to_peer_le⟩
  | pull p s count running owned empty ready serial count_eq =>
    have hb := hi.to_peer_le
    have hiff := hi.owned_iff
    split
    · exact ⟨hi.wf.reset, hi.token, hiff, hrun running, .inl rfl, hb⟩
    · rename_i hmore
      refine ⟨hi.wf, hi.token, hiff, hrun running, .inr ⟨ready, serial, ?_⟩, hb⟩
      have hoff := hi.offset
      simp only at hoff ⊢
      omega
  | push p s n running owned fits =>
    exact ⟨hi.wf, hi.token, hi.owned_iff, hi.terminal, hi.offset, hi.to_peer_le⟩
  | fetch p s bytes running owned empty fits =>
    exact ⟨hi.wf, hi.token, hi.owned_iff, hi.terminal, hi.offset, fits⟩
  | emit p s running owned some_data idle =>
    exact ⟨hi.wf, hi.token, hi.owned_iff, hrun running, hi.offset, Nat.zero_le _⟩

theorem Acts.inv (h : Acts k k') (hi : Inv k) : Inv k' :=
  Runs.actions_invariant (fun _ _ hact => hact.inv) h hi

/-- An action never changes whose session acts. -/
theorem Act.token_eq (h : Act k k') : k'.party.token = k.party.token := by
  cases h with
  | pull p s count running owned empty ready serial count_eq => dsimp only; split <;> rfl
  | _ => rfl

theorem Acts.token_eq (h : Acts k k') : k'.party.token = k.party.token :=
  Runs.actions_invariant (P := fun x => x.party.token = k.party.token)
    (fun _ _ hact hx => hact.token_eq.trans hx) h rfl

/-! ## What the other sessions see

An action names its own session in every event it records, and it leaves the
channel alone while another session owns it. -/

/-- The event is not about another session than `t`. -/
def by_token (t : UInt32) : Event → Bool
  | .created u | .received u _ | .queued u _ _ | .sent u _ | .discard u | .opened u | .closed u =>
    u == t
  | .backend_read _ | .backend_write _ => true

/-- The event is about a session and its transport only, not about the channel. -/
def sessional : Event → Bool
  | .created _ | .received _ _ | .queued _ _ _ | .sent _ _ => true
  | _ => false

/-- What a step of session `t` does to the channel, seen from outside. -/
structure Seen (t : UInt32) (s s' : Shared) (more : List Event) : Prop where
  history : s'.history = s.history ++ more
  named : ∀ e ∈ more, by_token t e = true
  /-- Another session's ownership neither starts nor ends. -/
  owner : ∀ u, u ≠ 0 → u ≠ t → (s'.owner = u ↔ s.owner = u)
  /-- While another session owns the channel, only session events are added. -/
  foreign : s.owner ≠ 0 → s.owner ≠ t → s' = s.log more ∧ ∀ e ∈ more, sessional e = true

theorem Seen.refl (t : UInt32) (s : Shared) : Seen t s s [] :=
  ⟨by simp, by simp, fun _ _ _ => Iff.rfl, fun _ _ => ⟨by simp [Shared.log], by simp⟩⟩

/-- A step that only logs events of its own session. -/
theorem Seen.of_log {t : UInt32} (s : Shared) {more : List Event}
    (h : ∀ e ∈ more, by_token t e = true ∧ sessional e = true) : Seen t s (s.log more) more :=
  ⟨rfl, fun e he => (h e he).1, fun _ _ _ => Iff.rfl, fun _ _ => ⟨rfl, fun e he => (h e he).2⟩⟩

/-- A step of the owner. -/
theorem Seen.of_owner {t : UInt32} {s s' : Shared} {more : List Event} (howner : s.owner = t)
    (hafter : s'.owner = t ∨ s'.owner = 0) (hh : s'.history = s.history ++ more)
    (hn : ∀ e ∈ more, by_token t e = true) : Seen t s s' more := by
  refine ⟨hh, hn, fun u h0 ht => ?_, fun _ hne => absurd howner hne⟩
  rw [howner]
  refine ⟨fun h => absurd h ?_, fun h => absurd h.symm ht⟩
  rcases hafter with h' | h' <;> rw [h']
  · exact fun h => ht h.symm
  · exact fun h => h0 h.symm

/-- Every action of a session is seen from outside as its own. -/
theorem Act.seen (h : Act k k') (hi : Inv k) : ∃ more, Seen k.party.token k.shared k'.shared more := by
  cases h with
  | feed p s bytes running incomplete =>
    refine ⟨_, Seen.of_log s ?_⟩
    intro e he
    split at he
    · rw [List.mem_singleton] at he
      subst he
      exact ⟨by simp [by_token], rfl⟩
    · cases he
  | send p s n running fits => exact ⟨_, Seen.of_log s (by simp [by_token, sessional])⟩
  | answer p s payload limit running ready control idle limit_ge limit_le fits buffer =>
    exact ⟨_, Seen.of_log s (by simp [by_token, sessional])⟩
  | acquire p s running token free ready control =>
    refine ⟨opening p.token, rfl, by simp [opening, by_token], fun u h0 ht => ?_,
      fun hne => absurd free hne⟩
    change p.token = u ↔ s.owner = u
    rw [free]
    exact ⟨fun h => absurd h.symm ht, fun h => absurd h.symm h0⟩
  | release p s owned =>
    exact ⟨ending p.token, Seen.of_owner (hi.owned_iff.mp owned) (.inr rfl) rfl
      (by simp [ending, by_token])⟩
  | stop p s result limit unowned limit_ge limit_le terminal =>
    exact ⟨[], Seen.refl _ _⟩
  | pull p s count running owned empty ready serial count_eq =>
    exact ⟨[], Seen.of_owner (hi.owned_iff.mp owned) (.inl (hi.owned_iff.mp owned)) (by simp)
      (by simp)⟩
  | push p s n running owned fits =>
    exact ⟨_, Seen.of_owner (hi.owned_iff.mp owned) (.inl (hi.owned_iff.mp owned)) rfl
      (by simp [by_token])⟩
  | fetch p s bytes running owned empty fits =>
    exact ⟨_, Seen.of_owner (hi.owned_iff.mp owned) (.inl (hi.owned_iff.mp owned)) rfl
      (by simp [by_token])⟩
  | emit p s running owned some_data idle =>
    exact ⟨_, Seen.of_owner (hi.owned_iff.mp owned) (.inl (hi.owned_iff.mp owned)) rfl
      (by simp [by_token])⟩

/-- Two steps of one session are seen as one. -/
theorem Seen.trans {t : UInt32} {s s' s'' : Shared} {more more' : List Event}
    (h : Seen t s s' more) (h' : Seen t s' s'' more') : Seen t s s'' (more ++ more') := by
  refine ⟨by rw [h'.history, h.history, List.append_assoc], ?_, ?_, ?_⟩
  · intro e he
    rcases List.mem_append.mp he with he | he
    · exact h.named e he
    · exact h'.named e he
  · exact fun u h0 ht => (h'.owner u h0 ht).trans (h.owner u h0 ht)
  · intro h0 ht
    have howner : s'.owner = s.owner := (h.owner _ h0 ht).mpr rfl
    obtain ⟨he, hs⟩ := h.foreign h0 ht
    obtain ⟨he', hs'⟩ := h'.foreign (howner ▸ h0) (howner ▸ ht)
    refine ⟨by rw [he', he]; simp [Shared.log], fun e hm => ?_⟩
    rcases List.mem_append.mp hm with hm | hm
    · exact hs e hm
    · exact hs' e hm

/-- **What a whole poll of a session shows to the others.** -/
theorem Acts.seen (h : Acts k k') (hi : Inv k) : ∃ more, Seen k.party.token k.shared k'.shared more := by
  induction h with
  | refl => exact ⟨[], Seen.refl _ _⟩
  | @tail b c hab hact ih =>
    obtain ⟨more, hseen⟩ := ih
    obtain ⟨more', hseen'⟩ := hact.seen (Acts.inv hab hi)
    rw [Acts.token_eq hab] at hseen'
    exact ⟨_, hseen.trans hseen'⟩

end Firmingo.Machine
