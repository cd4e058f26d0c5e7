/-
The second half of the refinement: the stream's pump, and with it a whole poll.

`Stream::pump` runs with the session as one end and the channel as the other, and
each half of it (`fill`, `drain`) in each direction is at most one action. A pump
that fails is the one place where the channel ends a tenure before the session
knows: `Channel::poll` clears the stream and calls the backend, and the `finish`
that follows finds nothing left to release. `retired_finish` says that the two
together are what a plain `finish` is.
-/
import Firmingo.Refine

set_option autoImplicit false

open Octets

namespace Firmingo.Ctx

open Protocol Machine

variable {β υ : Type} {c c' c'' : Ctx β υ} {input : PollInput}

/-! ## The four halves of a pump -/

/-- A running session that owns its channel. -/
structure Alive (c : Ctx β υ) : Prop where
  inv : Inv c.config
  running : c.session.result = .running
  owned : c.session.owned = true

theorem Alive.owner (h : Alive c) : c.channel.stream.owner = c.session.owner :=
  h.inv.owned_iff.mp h.owned

/-- What a successful half of a pump does: actions, after which the session still
owns the channel and still holds its control frame, if it held one. -/
structure Pumps (c c' : Ctx β υ) : Prop where
  acts : Acts c.config c'.config
  running : c'.session.result = .running
  owned : c'.session.owned = true
  control : c.session.decoder.type ≠ .serial → c'.session.decoder = c.session.decoder

theorem Pumps.alive (h : Pumps c c') (ha : Alive c) : Alive c' :=
  ⟨Acts.inv h.acts ha.inv, h.running, h.owned⟩

theorem Pumps.trans (h : Pumps c c') (h' : Pumps c' c'') : Pumps c c'' := by
  refine ⟨h.acts.trans h'.acts, h'.running, h'.owned, fun hc => ?_⟩
  rw [h'.control (by rw [h.control hc]; exact hc), h.control hc]

/-- A half that shows nothing. -/
theorem Alive.idle (h : Alive c) (hs : c'.session = c.session)
    (hc : c'.channel.shared = c.channel.shared) : Pumps c c' := by
  have hconfig : c'.config = c.config := by simp only [config, hs, hc]
  refine ⟨by rw [hconfig], by rw [hs]; exact h.running, by rw [hs]; exact h.owned, fun _ => by rw [hs]⟩

def to_backend (c : Ctx β υ) : Stream.Pending := c.stream.to_backend
def to_peer (c : Ctx β υ) : Stream.Pending := c.stream.to_peer

def put_to_backend (c : Ctx β υ) (p : Stream.Pending) : Ctx β υ :=
  c.set_stream { c.stream with to_backend := p }

def put_to_peer (c : Ctx β υ) (p : Stream.Pending) : Ctx β υ :=
  c.set_stream { c.stream with to_peer := p }

/-- The session's read never exceeds the buffer. -/
theorem read_length (c : Ctx β υ) (capacity : ℕ) : (c.read capacity).1.length ≤ capacity := by
  unfold read
  simp only
  split
  · simp
  · rw [List.length_take]
    omega

/-- A session that holds no serial frame has nothing to read. -/
theorem read_of_not_serial (h : ¬ (c.session.decoder.state = .ready ∧ c.session.decoder.type = .serial))
    (capacity : ℕ) : c.read capacity = ([], c) := by
  unfold read
  simp only
  rw [if_pos]
  simp only [ne_eq, Bool.or_eq_true, decide_eq_true_eq]
  tauto

/-- The session after the stream took `count` bytes of its serial frame. -/
def consume (c : Ctx β υ) (count : ℕ) : Ctx β υ :=
  { c with session :=
      if c.session.data_offset + count = c.session.decoder.size - 4 then
        { c.session with decoder := c.session.decoder.reset, data_offset := 0 }
      else { c.session with data_offset := c.session.data_offset + count } }

/-- Reading a serial frame takes the next bytes it holds. -/
theorem read_of_serial (hr : c.session.decoder.state = .ready)
    (hs : c.session.decoder.type = .serial) {capacity count : ℕ}
    (hcount : count = min capacity (c.session.decoder.size - 4 - c.session.data_offset)) :
    c.read capacity = (c.session.party.held.take count, c.consume count) := by
  simp [read, consume, Party.held, Session.party, hr, hs, hcount]

theorem consume_config (c : Ctx β υ) (count : ℕ) (p : Stream.Pending) :
    ((c.consume count).put_to_backend p).config
      = ⟨if c.session.data_offset + count = c.session.decoder.size - 4 then
          { c.session.party with decoder := c.session.decoder.reset, data_offset := 0 }
        else { c.session.party with data_offset := c.session.data_offset + count },
        { c.channel.shared with to_backend := p.bytes }⟩ := by
  unfold consume
  split <;> rfl

theorem consume_alive (h : Alive c) (count : ℕ) :
    (c.consume count).session.result = .running ∧ (c.consume count).session.owned = true := by
  unfold consume
  split <;> exact ⟨h.running, h.owned⟩

/-- The half from the peer: the stream still holds bytes, or there are none for it, or it
takes the next of its serial frame. -/
inductive Pulled (c : Ctx β υ) : Ctx β υ → Prop
  | pending : Pulled c c
  | nothing (empty : c.to_backend.bytes = []) (peak : ℕ) : Pulled c (c.put_to_backend ⟨[], peak⟩)
  | taken (empty : c.to_backend.bytes = []) (ready : c.session.decoder.state = .ready)
      (serial : c.session.decoder.type = .serial) {count : ℕ} (peak : ℕ)
      (count_eq : count = min Stream.capacity (c.session.decoder.size - 4 - c.session.data_offset)) :
      Pulled c ((c.consume count).put_to_backend ⟨c.session.party.held.take count, peak⟩)

/-- The half to the peer: nothing is pending, or the session still sends, or all that is
pending goes out in one serial frame. -/
inductive Emitted (c : Ctx β υ) : Ctx β υ → Prop
  | nothing (empty : c.to_peer.bytes = []) : Emitted c c
  | busy (busy : c.session.output ≠ []) : Emitted c (c.put_to_peer c.to_peer)
  | framed (idle : c.session.output = []) (some : c.to_peer.bytes ≠ []) :
      Emitted c ((c.holding ⟨.serial, 0, bytes32_be 1 ++ c.to_peer.bytes⟩).put_to_peer
        { c.to_peer with bytes := [] })

theorem Pulled.pumps (h : Pulled c c') (ha : Alive c) : Pumps c c' := by
  cases h with
  | pending => exact ha.idle rfl rfl
  | nothing empty peak =>
    refine ha.idle rfl ?_
    have hbytes : c.channel.stream.to_backend.bytes = [] := empty
    simp only [put_to_backend, set_stream, Channel.shared, stream, hbytes]
  | taken empty ready serial peak count_eq =>
    subst count_eq
    have hact := Act.pull c.session.party c.channel.shared _ ha.running ha.owned empty ready serial rfl
    have halive := consume_alive ha (min Stream.capacity (c.session.decoder.size - 4 - c.session.data_offset))
    refine ⟨.single ?_, halive.1, halive.2, fun hn => absurd serial hn⟩
    rw [consume_config]
    exact hact

theorem Emitted.pumps (h : Emitted c c') (ha : Alive c) : Pumps c c' := by
  cases h with
  | nothing empty => exact ha.idle rfl rfl
  | busy busy => exact ha.idle rfl rfl
  | framed idle some =>
    exact ⟨.single (.emit c.session.party c.channel.shared ha.running ha.owned some idle),
      ha.running, ha.owned, fun _ => rfl⟩

/-- The channel after the backend took `n` of the bytes that are pending for it. -/
def wrote (c : Ctx β υ) (n : ℕ) (b : β) : Ctx β υ :=
  { c with channel := { c.channel with
      backend := b
      rx_bytes := add c.channel.rx_bytes n
      history := c.channel.history ++ [.backend_write (c.to_backend.bytes.take n)] } }

/-- The channel after the backend returned `bytes`. -/
def returned (c : Ctx β υ) (bytes : List Byte) (b : β) : Ctx β υ :=
  { c with channel := { c.channel with
      backend := b
      tx_bytes := add c.channel.tx_bytes bytes.length
      history := c.channel.history ++ [.backend_read bytes] } }

/-- A deadline ends the session. -/
theorem expired_ne_running {now : UInt32} {result : SessionResult}
    (h : c.expired now = some result) : result ≠ .running := by
  unfold expired at h
  simp only at h
  split at h
  · split at h
    · cases h
      decide
    · cases h
  · split at h
    · cases h
      decide
    · cases h

variable [StreamBackend β]

/-- The half to the backend: nothing is pending, or the backend takes some of it, or claims
to have taken more. -/
inductive Pushed (c : Ctx β υ) : Ctx β υ → Prop
  | nothing : Pushed c c
  | taken {n : ℕ} {b : β} (some : c.to_backend.bytes ≠ []) (le : n ≤ c.to_backend.bytes.length)
      (write : StreamBackend.write c.channel.backend c.to_backend.bytes = (n, b)) :
      Pushed c ((c.wrote n b).put_to_backend { c.to_backend with bytes := c.to_backend.bytes.drop n })
  | overlong {n : ℕ} {b : β} (lt : c.to_backend.bytes.length < n)
      (write : StreamBackend.write c.channel.backend c.to_backend.bytes = (n, b)) :
      Pushed c { c with channel := { c.channel with backend := b } }

/-- The half from the backend, and whether it went well: the stream still holds bytes, or it
takes what the backend returns, or the backend returns too much. -/
inductive Fetched (c : Ctx β υ) : Bool → Ctx β υ → Prop
  | pending (some : c.to_peer.bytes ≠ []) : Fetched c true c
  | taken {bytes : List Byte} {b : β} (peak : ℕ) (empty : c.to_peer.bytes = [])
      (le : bytes.length ≤ Stream.capacity)
      (read : StreamBackend.read c.channel.backend Stream.capacity = (bytes, b)) :
      Fetched c true ((c.returned bytes b).put_to_peer ⟨bytes, peak⟩)
  | overlong {bytes : List Byte} {b : β} (lt : Stream.capacity < bytes.length)
      (read : StreamBackend.read c.channel.backend Stream.capacity = (bytes, b)) :
      Fetched c false { c with channel := { c.channel with backend := b } }

theorem Pushed.pumps (h : Pushed c c') (ha : Alive c) : Pumps c c' := by
  cases h with
  | nothing => exact ha.idle rfl rfl
  | taken some le write =>
    exact ⟨.single (.push c.session.party c.channel.shared _ ha.running ha.owned le), ha.running,
      ha.owned, fun _ => rfl⟩
  | overlong lt write => exact ha.idle rfl rfl

theorem Fetched.pumps {ok : Bool} (h : Fetched c ok c') (ha : Alive c) : Pumps c c' := by
  cases h with
  | pending some => exact ha.idle rfl rfl
  | taken peak empty le read =>
    exact ⟨.single (.fetch c.session.party c.channel.shared _ ha.running ha.owned empty le),
      ha.running, ha.owned, fun _ => rfl⟩
  | overlong lt read => exact ha.idle rfl rfl

theorem drain_to_backend (c : Ctx β υ) (progress : Bool) :
    Pushed c (Stream.drain backend to_backend put_to_backend progress c).state := by
  by_cases hempty : c.to_backend.bytes = []
  · rw [Stream.drain_of_empty hempty]
    exact .nothing
  rcases hw : StreamBackend.write c.channel.backend c.to_backend.bytes with ⟨n, b⟩
  by_cases hn : n ≤ c.to_backend.bytes.length
  · have hwrite : backend.write c c.to_backend.bytes = (n, c.wrote n b) := by
      simp only [backend, Channel.write, hw, hn, if_true, Channel.record, wrote]
    rw [Stream.drain_of_write hempty hwrite hn]
    exact .taken hempty hn hw
  · have hwrite : backend.write c c.to_backend.bytes
        = (n, { c with channel := { c.channel with backend := b } }) := by
      simp only [backend, Channel.write, hw, hn, if_false]
    rw [Stream.drain_of_overlong hempty hwrite (not_le.mp hn)]
    exact .overlong (not_le.mp hn) hw

theorem fill_from_backend (c : Ctx β υ) (progress : Bool) :
    Fetched c (Stream.fill backend to_peer put_to_peer progress c).ok
      (Stream.fill backend to_peer put_to_peer progress c).state := by
  by_cases hempty : c.to_peer.bytes = []
  swap
  · rw [Stream.fill_of_pending hempty]
    exact .pending hempty
  rcases hr : StreamBackend.read c.channel.backend Stream.capacity with ⟨bytes, b⟩
  by_cases hlen : bytes.length ≤ Stream.capacity
  · have hread : backend.read c Stream.capacity = (bytes, c.returned bytes b) := by
      simp only [backend, Channel.read, hr, hlen, if_true, Channel.record, returned]
    rw [Stream.fill_of_read hempty hread hlen]
    exact .taken _ hempty hlen hr
  · have hread : backend.read c Stream.capacity
        = (bytes, { c with channel := { c.channel with backend := b } }) := by
      simp only [backend, Channel.read, hr, hlen, if_false]
    rw [Stream.fill_of_overlong hempty hread (not_le.mp hlen)]
    exact .overlong (not_le.mp hlen) hr

variable [UploadService υ]

theorem fill_from_peer (c : Ctx β υ) (progress : Bool) :
    (Stream.fill peer to_backend put_to_backend progress c).ok = true ∧
      Pulled c (Stream.fill peer to_backend put_to_backend progress c).state := by
  by_cases hempty : c.to_backend.bytes = []
  swap
  · rw [Stream.fill_of_pending hempty]
    exact ⟨rfl, .pending⟩
  by_cases hserial : c.session.decoder.state = .ready ∧ c.session.decoder.type = .serial
  · obtain ⟨hr, hs⟩ := hserial
    have hlen := c.read_length Stream.capacity
    rw [read_of_serial hr hs rfl] at hlen
    rw [Stream.fill_of_read hempty (read_of_serial hr hs rfl) hlen]
    exact ⟨rfl, .taken hempty hr hs _ rfl⟩
  · rw [Stream.fill_of_read hempty (read_of_not_serial hserial _) (Nat.zero_le _)]
    exact ⟨rfl, .nothing hempty _⟩

/-- The session queues all that is pending for the peer, when its output is empty. -/
theorem write_of_idle (h : Alive c) (hidle : c.session.output = []) {data : List Byte}
    (hne : data ≠ []) (hlen : data.length ≤ Stream.capacity) :
    c.write data = (data.length, c.holding ⟨.serial, 0, bytes32_be 1 ++ data⟩) := by
  have hcount : min data.length Stream.capacity = data.length := min_eq_left hlen
  have hpos : data.length ≠ 0 := by simpa using hne
  have hsize : (bytes32_be 1 ++ data).length ≤ 260 := by
    simp only [List.length_append, bytes32_be_length, Stream.capacity] at hlen ⊢
    omega
  have hlimit : 512 ≤ c.limit := h.inv.wf.limit_ge
  have hqueue : c.queue .serial 0 (bytes32_be 1 ++ data)
      = c.holding ⟨.serial, 0, bytes32_be 1 ++ data⟩ :=
    queue_eq (f := ⟨.serial, 0, bytes32_be 1 ++ data⟩) hidle (hsize.trans (by omega))
      (hsize.trans (by decide)) rfl
  have hrun : (c.holding ⟨.serial, 0, bytes32_be 1 ++ data⟩).session.result = .running := h.running
  simp only [write, hidle, hcount, List.take_length, ne_eq, not_true_eq_false, if_false, hpos,
    not_false_iff, if_true, hqueue, hrun]

/-- The peer never fails: it takes all of the bytes or none. -/
theorem drain_to_peer (h : Alive c) (progress : Bool) :
    (Stream.drain peer to_peer put_to_peer progress c).ok = true ∧
      Emitted c (Stream.drain peer to_peer put_to_peer progress c).state := by
  by_cases hempty : c.to_peer.bytes = []
  · rw [Stream.drain_of_empty hempty]
    exact ⟨rfl, .nothing hempty⟩
  by_cases hidle : c.session.output = []
  · have hwrite : peer.write c c.to_peer.bytes = _ :=
      write_of_idle h hidle hempty h.inv.to_peer_le
    have hn : c.to_peer.bytes.length
        ≤ (c.holding ⟨.serial, 0, bytes32_be 1 ++ c.to_peer.bytes⟩).to_peer.bytes.length := le_rfl
    have hdrop : (c.holding ⟨.serial, 0, bytes32_be 1 ++ c.to_peer.bytes⟩).to_peer.bytes.drop
        c.to_peer.bytes.length = [] := List.drop_length
    rw [Stream.drain_of_write hempty hwrite hn, hdrop]
    exact ⟨rfl, .framed hidle hempty⟩
  · have hwrite : peer.write c c.to_peer.bytes = (0, c) := by
      simp only [peer, write, hidle, ne_eq, not_false_iff, if_true]
    rw [Stream.drain_of_write hempty hwrite (Nat.zero_le _)]
    exact ⟨rfl, .busy hidle⟩

/-! ## The pump -/

/-- The two pumps of a `Stream::poll`: from the peer inward, and then outward. -/
def inward (c : Ctx β υ) : Stream.Pumped (Ctx β υ) :=
  Stream.pump peer backend to_backend put_to_backend false c

def outward (c : Ctx β υ) : Stream.Pumped (Ctx β υ) :=
  Stream.pump backend peer to_peer put_to_peer c.inward.progress c.inward.state

theorem inward_halves (c : Ctx β υ) : ∃ c₁, Pulled c c₁ ∧ Pushed c₁ c.inward.state := by
  obtain ⟨hok, hpulled⟩ := fill_from_peer c false
  refine ⟨_, hpulled, ?_⟩
  simp only [inward, Stream.pump, hok, if_true]
  exact drain_to_backend _ _

theorem inward_pumps (h : Alive c) : Pumps c c.inward.state := by
  obtain ⟨c₁, hpulled, hpushed⟩ := inward_halves c
  have hfirst := hpulled.pumps h
  exact hfirst.trans (hpushed.pumps (hfirst.alive h))

/-- The outward pump stops at a failed first half. -/
theorem outward_halves (h : Alive c) :
    c.outward.ok = false ∧ Fetched c.inward.state false c.outward.state ∨
    c.outward.ok = true ∧ ∃ c₁, Fetched c.inward.state true c₁ ∧ Alive c₁ ∧ Emitted c₁ c.outward.state := by
  have halive := (inward_pumps h).alive h
  have hfetched := fill_from_backend c.inward.state c.inward.progress
  have hfilled := (hfetched.pumps halive).alive halive
  simp only [outward, Stream.pump]
  split
  · next hok =>
    rw [hok] at hfetched
    obtain ⟨hgood, hemitted⟩ := drain_to_peer hfilled
      (Stream.fill backend to_peer put_to_peer c.inward.progress c.inward.state).progress
    exact .inr ⟨hgood, _, hfetched, hfilled, hemitted⟩
  · next hok =>
    rw [Bool.not_eq_true] at hok
    rw [hok] at hfetched
    exact .inl ⟨hok, hfetched⟩

theorem outward_pumps (h : Alive c) : Pumps c c.outward.state := by
  have hin := inward_pumps h
  rcases outward_halves h with ⟨_, hfetched⟩ | ⟨_, c₁, hfetched, halive, hemitted⟩
  · exact hin.trans (hfetched.pumps (hin.alive h))
  · exact hin.trans ((hfetched.pumps (hin.alive h)).trans (hemitted.pumps halive))

/-- Nothing that a pump compares has changed. -/
structure Still (c c' : Ctx β υ) : Prop where
  rx_bytes : c'.channel.rx_bytes = c.channel.rx_bytes
  tx_bytes : c'.channel.tx_bytes = c.channel.tx_bytes
  pending_rx : c'.channel.pending_rx = c.channel.pending_rx
  pending_tx : c'.channel.pending_tx = c.channel.pending_tx
  output : c'.session.output = c.session.output

/-- The times of the last progress, of the stream and of the session. -/
def progressed (c : Ctx β υ) (stream_at session_at : UInt32) : Ctx β υ :=
  { c.set_stream { c.stream with last_progress := stream_at } with
    session := { c.session with progress_at := session_at } }

/-- The stream is cleared and the tenure ended. -/
def retired (c : Ctx β υ) : Ctx β υ :=
  { c.set_stream c.stream.clear with
    channel := (c.set_stream c.stream.clear).channel.retire c.session.owner }

/-- The ways of a pump: both directions went well, or the session ends where the pump
stopped. -/
inductive PumpWay (now : UInt32) (c : Ctx β υ) : Ctx β υ → Prop
  | went (ok : c.outward.ok = true) (stream_at session_at : UInt32)
      (credited : session_at = c.outward.state.session.progress_at ∨
        session_at = now ∧ ¬ Still c c.outward.state) :
      PumpWay now c (c.outward.state.progressed stream_at session_at)
  | failed (c₁ : Ctx β υ)
      (stopped : c₁ = c ∨ c₁ = c.inward.state ∨ c.outward.ok = false ∧ c₁ = c.outward.state) :
      PumpWay now c (c₁.retired.finish .io_error)

/-- What `Stream::poll` comes to: both pumps went well, or the stream is cleared where
the poll stopped. -/
theorem stream_poll_shape (h : Alive c) (now : UInt32) :
    (∃ t, Stream.poll stream set_stream c.session.owner peer backend now c
        = (.ok, c.outward.state.set_stream { c.outward.state.stream with last_progress := t }) ∧
      c.outward.ok = true) ∨
    ∃ result c₁, Stream.poll stream set_stream c.session.owner peer backend now c
        = (result, c₁.set_stream c₁.stream.clear) ∧ result ≠ .ok ∧ result ≠ .invalid_owner ∧
      (c₁ = c ∨ c₁ = c.inward.state ∨ c.outward.ok = false ∧ c₁ = c.outward.state) := by
  have howner : ¬ (c.session.owner = 0 || c.session.owner ≠ (stream c).owner) := by
    have hne : c.session.owner ≠ 0 := h.inv.token
    have heq : (stream c).owner = c.session.owner := h.owner
    simp [hne, heq]
  have hin : Stream.pump peer backend (fun s : Ctx β υ => (stream s).to_backend)
      (fun s p => set_stream s { stream s with to_backend := p }) false c = c.inward := rfl
  have hout : Stream.pump backend peer (fun s : Ctx β υ => (stream s).to_peer)
      (fun s p => set_stream s { stream s with to_peer := p }) c.inward.progress c.inward.state
      = c.outward := rfl
  unfold Stream.poll
  rw [if_neg howner]
  split
  · exact .inr ⟨_, c, rfl, by decide, by decide, .inl rfl⟩
  split
  · exact .inr ⟨_, c, rfl, by decide, by decide, .inl rfl⟩
  simp only [hin, hout]
  -- the outward half runs only after a good inward half
  cases hok : c.inward.ok with
  | false =>
    simp only [hok, Bool.false_eq_true, if_false]
    exact .inr ⟨_, _, rfl, by decide, by decide, .inr (.inl rfl)⟩
  | true =>
    simp only [if_true]
    cases hgood : c.outward.ok with
    | false =>
      simp only [Bool.false_eq_true, if_false]
      exact .inr ⟨_, _, rfl, by decide, by decide, .inr (.inr ⟨trivial, rfl⟩)⟩
    | true =>
      simp only [if_true]
      left
      split
      · exact ⟨now, rfl, trivial⟩
      · exact ⟨c.outward.state.stream.last_progress, rfl, trivial⟩

/-- A pump in the session goes one of the ways. -/
theorem pump_way (h : Alive c) (now : UInt32) : PumpWay now c (c.pump now) := by
  rcases stream_poll_shape h now with ⟨t, hp, hok⟩ | ⟨result, c₁, hp, hne, hne', hstopped⟩
  · have hch : c.channel_poll now
        = (.ok, c.outward.state.set_stream { c.outward.state.stream with last_progress := t }) := by
      simp [channel_poll, hp]
    simp only [pump, hch]
    rw [if_neg (by simp)]
    split
    · next hchanged =>
      refine .went hok t now (.inr ⟨rfl, fun hstill => ?_⟩)
      have hin := hstill.pending_rx
      have hout := hstill.pending_tx
      simp only [Channel.pending_rx, Channel.pending_tx, Stream.pending_to_backend,
        Stream.pending_to_peer] at hin hout
      simp [Channel.pending_rx, Channel.pending_tx, Stream.pending_to_backend, Stream.pending_to_peer,
        set_stream, stream, hstill.rx_bytes, hstill.tx_bytes, hstill.output, hin, hout] at hchanged
    · exact .went hok t _ (.inl rfl)
  · have hsession : c₁.session.owner = c.session.owner := by
      rcases hstopped with rfl | rfl | ⟨_, rfl⟩
      · rfl
      · exact Acts.token_eq (inward_pumps h).acts
      · exact Acts.token_eq (outward_pumps h).acts
    have hpump : c.pump now = c₁.retired.finish .io_error := by
      simp [pump, channel_poll, hp, hne, hne', retired, hsession]
    rw [hpump]
    exact .failed c₁ hstopped

/-- The channel's own end of a tenure, followed by the session's `finish`, is a plain
`finish`. -/
theorem retired_finish (h : Alive c) (result : SessionResult) :
    (c.retired.finish result).config = (c.finish result).config := by
  have hne : c.session.owner ≠ 0 := h.inv.token
  have hrelease : (c.channel.release c.session.owner).shared
      = c.channel.shared.vacant.log (ending c.session.owner) := Channel.release_shared hne h.owner
  have hagain : ((c.set_stream c.stream.clear).channel.retire c.session.owner).release c.session.owner
      = (c.set_stream c.stream.clear).channel.retire c.session.owner := Channel.release_eq_self hne
  have hretire := Channel.retire_shared (c.set_stream c.stream.clear).channel c.session.owner
  rw [finish_config, finish_config]
  simp only [let_go, retired, h.owned, if_true]
  rw [hrelease]
  simp only [set_stream] at hagain hretire ⊢
  simp only [h.owned, if_true]
  rw [hagain, hretire]
  rfl

/-- **A pump is a run of actions**, and a session that still runs after it still holds
its control frame. -/
theorem pump_acts (h : Alive c) (now : UInt32) :
    Acts c.config (c.pump now).config ∧
      ((c.pump now).session.result = .running → c.session.decoder.type ≠ .serial →
        (c.pump now).session.decoder = c.session.decoder) := by
  have hway := pump_way h now
  generalize c.pump now = c' at hway ⊢
  cases hway with
  | went ok stream_at session_at credited =>
    exact ⟨(outward_pumps h).acts, fun _ hc => (outward_pumps h).control hc⟩
  | failed c₁ stopped =>
    have hpumps : Pumps c c₁ := by
      rcases stopped with rfl | rfl | ⟨_, rfl⟩
      · exact h.idle rfl rfl
      · exact inward_pumps h
      · exact outward_pumps h
    refine ⟨?_, fun hrun => by cases hrun⟩
    rw [retired_finish (hpumps.alive h)]
    exact hpumps.acts.trans (finish_acts (hpumps.alive h).inv (by decide))

/-! ## The poll -/

theorem flush_acts (hi : Inv c.config) (hrun : c.session.result = .running)
    (input : PollInput) : Acts c.config (c.flush input).config := by
  unfold flush
  split
  · exact .refl
  simp only
  split
  · exact finish_acts hi (by decide)
  · rename_i hcount
    exact .single (.send c.session.party c.channel.shared _ hrun (not_lt.mp hcount))

theorem receive_acts (hi : Inv c.config) (hrun : c.session.result = .running)
    (input : PollInput) : Acts c.config (c.receive input).config := by
  unfold receive
  split
  · exact .refl
  rename_i hinc
  simp only
  split
  · exact finish_acts hi (by decide)
  split
  · exact .refl
  have hact := Act.feed c.session.party c.channel.shared
    (input.read (min c.session.decoder.needed 256)) hrun (not_not.mp hinc)
  split
  · rename_i hready
    rw [if_pos (show (c.session.party.decoder.feed _).state = .ready from hready)] at hact
    exact .single hact
  · rename_i hready
    rw [if_neg (show ¬ (c.session.party.decoder.feed _).state = .ready from hready),
      Shared.log, List.append_nil] at hact
    exact .single hact

/-- What a poll does besides reading and executing a frame, step by step. -/
inductive Move (input : PollInput) (c : Ctx β υ) : Ctx β υ → Prop
  | flush : Move input c (c.flush input)
  | pump (owned : c.session.owned = true) : Move input c (c.pump input.now)
  /-- The data has had its turn. -/
  | turn : Move input c { c with session := { c.session with data_turn := false } }
  | finish {result : SessionResult} (ended : result ≠ .running) : Move input c (c.finish result)

/-- Such steps one after the other, each of a session that runs. -/
inductive Moves (input : PollInput) (c : Ctx β υ) : Ctx β υ → Prop
  | refl : Moves input c c
  | step {c₁ c₂ : Ctx β υ} (before : Moves input c c₁) (inv : Inv c₁.config)
      (running : c₁.session.result = .running) (move : Move input c₁ c₂) : Moves input c c₂

/-- A frame that is executed now. -/
structure Due (c : Ctx β υ) : Prop where
  inv : Inv c.config
  running : c.session.result = .running
  ready : c.session.decoder.state = .ready
  idle : c.session.decoder.type ≠ .serial → c.session.output = []

/-- The frame stage: among the moves, at most one execution of the frame in the decoder. -/
inductive Serves (input : PollInput) (c c' : Ctx β υ) : Prop
  | moves (moves : Moves input c c')
  | executes {c₁ : Ctx β υ} (before : Moves input c c₁) (due : Due c₁)
      (after : Moves input (c₁.dispatch input.now input.memory) c')

/-- A whole poll: at most one read, and the frame stage only after it. -/
inductive Polls (input : PollInput) (c c' : Ctx β υ) : Prop
  | moves (moves : Moves input c c')
  | reads {c₁ : Ctx β υ} (before : Moves input c c₁) (inv : Inv c₁.config)
      (running : c₁.session.result = .running) (ended : c' = c₁.receive input)
  | serves {c₁ : Ctx β υ} (before : Moves input c c₁) (inv : Inv c₁.config)
      (running : c₁.session.result = .running) (reading : (c₁.receive input).session.result = .running)
      (served : Serves input (c₁.receive input) c')

/-- A relation that every step of a poll respects holds of the whole poll. -/
theorem Moves.rule {R : Ctx β υ → Ctx β υ → Prop} (refl : ∀ c, R c c)
    (trans : ∀ {c c' c''}, R c c' → R c' c'' → R c c'')
    (move : ∀ {c c' : Ctx β υ}, Inv c.config → c.session.result = .running → Move input c c' → R c c')
    (h : Moves input c c') : R c c' := by
  induction h with
  | refl => exact refl c
  | step _ inv running hmove ih => exact trans ih (move inv running hmove)

/-- Only a session that runs is moved. -/
theorem Moves.start (h : Moves input c c') : c' = c ∨ c.session.result = .running := by
  induction h with
  | refl => exact .inl rfl
  | step _ _ running _ ih =>
    rcases ih with rfl | hrun
    · exact .inr running
    · exact .inr hrun

/-- What each stage of a poll keeps, and steps in a row keep, a whole poll keeps. -/
theorem Polls.rule {R : Ctx β υ → Ctx β υ → Prop} (refl : ∀ c, R c c)
    (trans : ∀ {c c' c''}, R c c' → R c' c'' → R c c'')
    (move : ∀ {c c' : Ctx β υ}, Inv c.config → c.session.result = .running → Move input c c' → R c c')
    (receive : ∀ {c : Ctx β υ}, Inv c.config → c.session.result = .running → R c (c.receive input))
    (dispatch : ∀ {c : Ctx β υ}, Due c → R c (c.dispatch input.now input.memory))
    (h : Polls input c c') : R c c' := by
  have hmoves : ∀ {c c'}, Moves input c c' → R c c' := Moves.rule refl trans move
  cases h with
  | moves moves => exact hmoves moves
  | reads before inv running ended =>
    subst ended
    exact trans (hmoves before) (receive inv running)
  | serves before inv running _ served =>
    refine trans (trans (hmoves before) (receive inv running)) ?_
    cases served with
    | moves moves => exact hmoves moves
    | executes before due after => exact trans (trans (hmoves before) (dispatch due)) (hmoves after)

theorem Move.acts (h : Move input c c') (hi : Inv c.config) (hrun : c.session.result = .running) :
    Acts c.config c'.config := by
  cases h with
  | flush => exact flush_acts hi hrun input
  | pump owned => exact (pump_acts ⟨hi, hrun, owned⟩ _).1
  | turn => exact .refl
  | finish ended => exact finish_acts hi ended

theorem Due.acts (h : Due c) (now : UInt32) (memory : Option MemorySamples) :
    Acts c.config (c.dispatch now memory).config :=
  dispatch_acts h.inv h.running h.ready h.idle now memory

theorem Moves.acts (h : Moves input c c') : Acts c.config c'.config :=
  Moves.rule (R := fun c c' => Acts c.config c'.config) (fun _ => .refl) .trans
    (fun hi hrun hmove => hmove.acts hi hrun) h

theorem Serves.acts (h : Serves input c c') : Acts c.config c'.config := by
  cases h with
  | moves moves => exact moves.acts
  | executes before due after => exact (before.acts.trans (due.acts _ _)).trans after.acts

/-- A complete frame: serial data is executed at once, a control frame when the output is idle. -/
theorem handle_serves (hi : Inv c.config) (hrun : c.session.result = .running)
    (hready : c.session.decoder.state = .ready) (input : PollInput) :
    Serves input c (c.handle input).2 := by
  -- the dispatch of a control frame waits for the output
  have hdispatch : ∀ c' : Ctx β υ, Moves input c c' → c'.session.result = .running →
      c'.session.decoder.state = .ready →
      Serves input c (if c'.session.output = [] then c'.dispatch input.now input.memory else c') := by
    intro c' hmoves hrun' hready'
    split
    · next hidle =>
      exact .executes hmoves ⟨Acts.inv hmoves.acts hi, hrun', hready', fun _ => hidle⟩ .refl
    · exact .moves hmoves
  unfold handle
  split
  · next hs => exact .executes .refl ⟨hi, hrun, hready, fun hn => absurd hs hn⟩ .refl
  next hcontrol =>
  generalize hfirst : (decide (c.session.output = []) && c.session.owned && c.session.data_turn)
    = data_first
  cases data_first with
  | false =>
    simp only [Bool.false_and, Bool.false_eq_true, if_false]
    exact hdispatch c .refl hrun hready
  | true =>
    simp only [Bool.and_eq_true, decide_eq_true_eq] at hfirst
    have hpump : Moves input c (c.pump input.now) := .step .refl hi hrun (.pump hfirst.1.2)
    simp only [Bool.true_and, if_true, decide_eq_true_eq]
    split
    · exact .moves hpump
    · next hrun' =>
      rw [not_not] at hrun'
      refine hdispatch _ (hpump.step (Acts.inv hpump.acts hi) hrun' .turn) hrun' ?_
      rw [(pump_acts ⟨hi, hrun, hfirst.1.2⟩ input.now).2 hrun' hcontrol]
      exact hready

/-- The frame stage: a complete frame is handled, then the stream is pumped if it was not yet. -/
theorem serve_serves (hi : Inv c.config) (hrun : c.session.result = .running) (input : PollInput) :
    Serves input c (c.serve input) := by
  unfold serve
  split
  · exact .moves (.step .refl hi hrun (.finish (by decide)))
  have hhandle : Serves input c
      (if c.session.decoder.state = .ready then c.handle input else (false, c)).2 := by
    split
    · next hready => exact handle_serves hi hrun hready input
    · exact .moves .refl
  generalize (if c.session.decoder.state = .ready then c.handle input else (false, c)) = handled
    at hhandle ⊢
  obtain ⟨pumped, c'⟩ := handled
  simp only at hhandle ⊢
  split
  · next halive =>
    simp only [Bool.and_eq_true, decide_eq_true_eq] at halive
    have hi' : Inv c'.config := Acts.inv hhandle.acts hi
    cases hhandle with
    | moves moves => exact .moves (moves.step hi' halive.1.1 (.pump halive.1.2))
    | executes before due after => exact .executes before due (after.step hi' halive.1.1 (.pump halive.1.2))
  · exact hhandle

/-- **The stages of a poll**, whatever the transport, the backend and the upload service
answer. -/
theorem poll_polls (hi : Inv c.config) (input : PollInput) : Polls input c (c.poll input) := by
  unfold poll
  split
  · exact .moves .refl
  next hrun =>
  rw [not_not] at hrun
  split
  · exact .moves (.step .refl hi hrun (.finish (by decide)))
  split
  · next result hexp => exact .moves (.step .refl hi hrun (.finish (expired_ne_running hexp)))
  have hflush : Moves input c (c.flush input) := .step .refl hi hrun .flush
  have hi1 := Acts.inv hflush.acts hi
  simp only
  split
  · exact .moves hflush
  next hrun1 =>
  rw [not_not] at hrun1
  split
  · split
    · exact .moves hflush
    · exact .moves (hflush.step hi1 hrun1 (.finish (by decide)))
  split
  · exact .reads hflush hi1 hrun1 rfl
  · next hrun2 =>
    rw [not_not] at hrun2
    exact .serves hflush hi1 hrun1 hrun2
      (serve_serves (Acts.inv (receive_acts hi1 hrun1 input) hi1) hrun2 input)

/-- **A poll is a run of actions.** -/
theorem poll_acts (hi : Inv c.config) (input : PollInput) : Acts c.config (c.poll input).config :=
  (poll_polls hi input).rule (R := fun c c' => Acts c.config c'.config) (fun _ => .refl) .trans
    (fun hi hrun hmove => hmove.acts hi hrun) (fun hi hrun => receive_acts hi hrun input)
    (fun hdue => hdue.acts _ _)

end Firmingo.Ctx
