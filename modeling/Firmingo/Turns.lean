/-
Whose turn it is: replies, and what the stream sends between them.

A session has one output buffer for its replies and for the stream's serial
frames. This file reads from the history in which order frames became ready and
were queued since the channel was opened, and says what the two writers add to
that order: a dispatch of a control frame queues one reply or ends the session, and
a pump queues one serial frame if the buffer is free and there is something to send.
-/
import Firmingo.Inward

set_option autoImplicit false

open Octets

namespace Firmingo

open Protocol Machine

/-! ## The order of frames -/

/-- What the history is read for: a control frame became ready, a serial frame or a
response was queued. -/
inductive Mark
  | ready
  | serial
  | response
  deriving DecidableEq, Repr

/-- The frames a dispatch answers. -/
def is_control (type : FrameType) : Bool := type = .request || type = .upload

def mark (t : UInt32) : Event → List Mark
  | .received u f => if u = t && is_control f.type then [.ready] else []
  | .queued u f _ => if u = t then (if f.type = .serial then [.serial] else [.response]) else []
  | _ => []

/-- The marks of session `t` since the channel was opened. -/
def tenure (t : UInt32) : List Event → List Mark := Runs.since is_opened (mark t)

/-- Events that leave no mark, whoever's they are. -/
def unmarked : Event → Bool
  | .received _ _ | .queued _ _ _ | .opened _ => false
  | _ => true

theorem tenure_unmarked (t : UInt32) (history : List Event) {more : List Event}
    (h : ∀ e ∈ more, unmarked e = true) : tenure t (history ++ more) = tenure t history := by
  refine Runs.since_quiet _ _ _ _ fun e he => ?_
  have hu := h e he
  cases e <;> first | exact ⟨rfl, rfl⟩ | cases hu

theorem tenure_queued (t : UInt32) (history : List Event) (f : Frame) (limit : ℕ) :
    tenure t (history ++ [.queued t f limit])
      = tenure t history ++ [if f.type = .serial then .serial else .response] := by
  rw [tenure, Runs.since_concat, if_neg (by simp [is_opened])]
  congr 1
  simp only [mark, if_true]
  split <;> rfl

theorem tenure_received (t : UInt32) (history : List Event) (f : Frame) :
    tenure t (history ++ [.received t f])
      = tenure t history ++ if is_control f.type then [.ready] else [] := by
  rw [tenure, Runs.since_concat, if_neg (by simp [is_opened])]
  congr 1
  simp only [mark, decide_true, Bool.true_and]

namespace Ctx

variable {β υ : Type} {c c' c'' : Ctx β υ}

/-- The marks of this session. -/
def tenure (c : Ctx β υ) : List Mark := Firmingo.tenure c.session.owner c.channel.history

/-! ## What a reply, a dispatch and a pump leave -/

/-- What a reply does to a session with nothing to send: it is queued, or the session
ends. -/
structure Replied (c c' : Ctx β υ) : Prop where
  owner : c'.session.owner = c.session.owner
  outcome : c'.session.result ≠ .running ∧ c'.tenure = c.tenure ∨
    c'.session.result = .running ∧ c'.tenure = c.tenure ++ [.response] ∧
      ∃ f : Frame, f.type = .response ∧ c'.session.output = wire f
  owned : c'.session.owned = true →
    c.session.owned = true ∧ c'.session.closing = c.session.closing

theorem holding_tenure (c : Ctx β υ) (f : Frame) :
    (c.holding f).tenure = c.tenure ++ [if f.type = .serial then .serial else .response] :=
  tenure_queued _ _ _ _

/-- What a dispatch has done before it replies: it may have opened the channel, for a
session that did not own it. -/
structure Prepared (c c0 : Ctx β υ) : Prop where
  owner : c0.session.owner = c.session.owner
  running : c0.session.result = .running
  closing : c0.session.closing = c.session.closing
  tenure : c.session.owned = true → c0.tenure = c.tenure
  opened : c.session.owned = false → c0.session.owned = true → c0.tenure = []

/-- What the dispatch of a control frame does: one reply, or the end. -/
structure Dispatched (c c' : Ctx β υ) : Prop where
  owner : c'.session.owner = c.session.owner
  idle : c'.session.decoder.bytes = [] ∧ c'.session.decoder.state = .incomplete
  ended : c'.session.result ≠ .running → c.session.owned = true → c'.tenure = c.tenure
  replied : c'.session.result = .running →
    (∃ f : Frame, f.type = .response ∧ c'.session.output = wire f) ∧
    (c.session.owned = true → c'.tenure = c.tenure ++ [.response]) ∧
    (c.session.owned = false → c'.session.owned = true → c'.tenure = [.response])
  closing : c'.session.owned = true → c'.session.closing = c.session.closing

theorem Prepared.refl (hrun : c.session.result = .running) : Prepared c c :=
  ⟨rfl, hrun, rfl, fun _ => rfl, fun h h' => by rw [h] at h'; cases h'⟩

/-- The reply after the preparation, in a session whose decoder is then reset. -/
theorem Prepared.dispatched {c0 c1 : Ctx β υ} (h : Prepared c c0) (hr : Replied c0 c1)
    (howner : c'.session.owner = c1.session.owner) (hresult : c'.session.result = c1.session.result)
    (houtput : c'.session.result = .running → c'.session.output = c1.session.output)
    (htenure : c'.tenure = c1.tenure)
    (hidle : c'.session.decoder.bytes = [] ∧ c'.session.decoder.state = .incomplete)
    (howned : c'.session.owned = true →
      c1.session.owned = true ∧ c'.session.closing = c1.session.closing) :
    Dispatched c c' := by
  refine ⟨by rw [howner, hr.owner, h.owner], hidle, ?_, ?_, ?_⟩
  · intro hne hown
    rcases hr.outcome with ⟨-, ht⟩ | ⟨hrun, -⟩
    · rw [htenure, ht, h.tenure hown]
    · exact absurd (hresult.trans hrun) hne
  · intro hrun
    rcases hr.outcome with ⟨hne, -⟩ | ⟨-, ht, f, hf, hout⟩
    · exact absurd (hresult.symm.trans hrun) hne
    · refine ⟨⟨f, hf, by rw [houtput hrun, hout]⟩, fun hown => by rw [htenure, ht, h.tenure hown],
        fun hnot hown => ?_⟩
      have hc0 := (hr.owned (howned hown).1).1
      rw [htenure, ht, h.opened hnot hc0, List.nil_append]
  · intro hown
    rw [(howned hown).2, (hr.owned (howned hown).1).2, h.closing]

/-- A change of the backend, of the upload service or of the decoder is no event. -/
theorem prepared_of_history {c0 : Ctx β υ} (hrun : c.session.result = .running)
    (howner : c0.session.owner = c.session.owner) (hresult : c0.session.result = c.session.result)
    (hclosing : c0.session.closing = c.session.closing)
    (howned : c0.session.owned = true → c.session.owned = true)
    (htenure : Firmingo.tenure c.session.owner c0.channel.history = c.tenure) : Prepared c c0 := by
  refine ⟨howner, hresult.trans hrun, hclosing, fun _ => ?_, fun hnot hown => ?_⟩
  · rw [Ctx.tenure, howner, htenure]
  · rw [howned hown] at hnot
    cases hnot

theorem prepared_channel (hrun : c.session.result = .running) {channel : Channel β}
    (h : channel.shared.history = c.channel.shared.history) : Prepared c { c with channel := channel } :=
  prepared_of_history hrun rfl rfl rfl id (congrArg (Firmingo.tenure c.session.owner) h)

/-- A part of a pump that queues nothing. -/
structure Quiet (c c' : Ctx β υ) : Prop where
  owner : c'.session.owner = c.session.owner
  result : c'.session.result = c.session.result
  owned : c'.session.owned = c.session.owned
  data_turn : c'.session.data_turn = c.session.data_turn
  closing : c'.session.closing = c.session.closing
  output : c'.session.output = c.session.output
  decoder : c'.session.decoder = c.session.decoder ∨
    (c.session.decoder.state = .ready ∧ c.session.decoder.type = .serial) ∧
      c'.session.decoder = c.session.decoder.reset
  tenure : c'.tenure = c.tenure

theorem Quiet.refl (c : Ctx β υ) : Quiet c c := ⟨rfl, rfl, rfl, rfl, rfl, rfl, .inl rfl, rfl⟩

/-- A decoder is reset at most once, when its serial frame is used up. -/
theorem decoder_trans {d d' d'' : Decoder}
    (h : d' = d ∨ (d.state = .ready ∧ d.type = .serial) ∧ d' = d.reset)
    (h' : d'' = d' ∨ (d'.state = .ready ∧ d'.type = .serial) ∧ d'' = d'.reset) :
    d'' = d ∨ (d.state = .ready ∧ d.type = .serial) ∧ d'' = d.reset := by
  rcases h with rfl | ⟨hs, rfl⟩
  · exact h'
  · rcases h' with rfl | ⟨⟨hr, -⟩, -⟩
    · exact .inr ⟨hs, rfl⟩
    · cases hr

theorem Quiet.trans (h : Quiet c c') (h' : Quiet c' c'') : Quiet c c'' :=
  ⟨h'.owner.trans h.owner, h'.result.trans h.result, h'.owned.trans h.owned,
    h'.data_turn.trans h.data_turn, h'.closing.trans h.closing, h'.output.trans h.output,
    decoder_trans h.decoder h'.decoder, h'.tenure.trans h.tenure⟩

theorem tenure_congr (ho : c'.session.owner = c.session.owner)
    (hh : c'.channel.history = c.channel.history) : c'.tenure = c.tenure := by
  unfold Ctx.tenure
  rw [ho, hh]

/-- A change of the channel that leaves no mark. -/
theorem quiet_of_session (hs : c'.session = c.session) (more : List Event)
    (hh : c'.channel.history = c.channel.history ++ more)
    (hm : ∀ e ∈ more, unmarked e = true) : Quiet c c' := by
  refine ⟨by rw [hs], by rw [hs], by rw [hs], by rw [hs], by rw [hs], by rw [hs],
    .inl (by rw [hs]), ?_⟩
  unfold Ctx.tenure
  rw [hs, hh]
  exact tenure_unmarked _ _ hm

theorem consume_quiet (h : c.session.decoder.state = .ready ∧ c.session.decoder.type = .serial)
    (count : ℕ) (p : Stream.Pending) : Quiet c ((c.consume count).put_to_backend p) ∧
      ((c.consume count).put_to_backend p).to_peer = c.to_peer ∧
      ((c.consume count).put_to_backend p).channel.backend = c.channel.backend := by
  have ho : ((c.consume count).put_to_backend p).session.owner = c.session.owner := by
    unfold consume
    split <;> rfl
  refine ⟨⟨ho, ?_, ?_, ?_, ?_, ?_, ?_, tenure_congr ho rfl⟩, rfl, rfl⟩
  case refine_6 =>
    unfold consume
    split
    · exact .inr ⟨h, rfl⟩
    · exact .inl rfl
  all_goals
    unfold consume
    split <;> rfl

theorem Pulled.quiet (h : Pulled c c') :
    Quiet c c' ∧ c'.to_peer = c.to_peer ∧ c'.channel.backend = c.channel.backend := by
  cases h with
  | pending => exact ⟨.refl c, rfl, rfl⟩
  | nothing empty peak =>
    exact ⟨quiet_of_session rfl [] (by simp [put_to_backend, set_stream]) (by simp), rfl, rfl⟩
  | taken empty ready serial peak count_eq => exact consume_quiet ⟨ready, serial⟩ _ _

/-- What a pump that went well has done, where `some_data` says that there was
something to send. -/
structure Sent (some_data : Prop) (c c' : Ctx β υ) : Prop where
  owner : c'.session.owner = c.session.owner
  result : c'.session.result = c.session.result
  owned : c'.session.owned = c.session.owned
  data_turn : c'.session.data_turn = c.session.data_turn
  closing : c'.session.closing = c.session.closing
  decoder : c'.session.decoder = c.session.decoder ∨
    (c.session.decoder.state = .ready ∧ c.session.decoder.type = .serial) ∧
      c'.session.decoder = c.session.decoder.reset
  busy : c.session.output ≠ [] → c'.tenure = c.tenure ∧ c'.session.output = c.session.output
  free : c.session.output = [] → some_data →
    c'.tenure = c.tenure ++ [.serial] ∧ c'.session.output ≠ []

theorem Quiet.sent {some_data : Prop} (h : Quiet c c')
    (h' : Sent some_data c' c'') : Sent some_data c c'' := by
  refine ⟨h'.owner.trans h.owner, h'.result.trans h.result, h'.owned.trans h.owned,
    h'.data_turn.trans h.data_turn, h'.closing.trans h.closing,
    decoder_trans h.decoder h'.decoder, ?_, ?_⟩
  · intro hbusy
    rw [← h.tenure, ← h.output]
    exact h'.busy (by rw [h.output]; exact hbusy)
  · intro hidle hsome
    rw [← h.tenure]
    exact h'.free (by rw [h.output]; exact hidle) hsome

/-- The times of the last progress do not show. -/
theorem Sent.progressed {some_data : Prop} (h : Sent some_data c c')
    (stream_at session_at : UInt32) : Sent some_data c (c'.progressed stream_at session_at) :=
  ⟨h.owner, h.result, h.owned, h.data_turn, h.closing, h.decoder, h.busy, h.free⟩

theorem Sent.mono {some_data some_data' : Prop} (h : Sent some_data c c')
    (himp : some_data' → some_data) : Sent some_data' c c' :=
  ⟨h.owner, h.result, h.owned, h.data_turn, h.closing, h.decoder, h.busy,
    fun hidle hsome => h.free hidle (himp hsome)⟩

theorem wire_ne_nil (f : Frame) : wire f ≠ [] := by
  intro h
  have hlen := congrArg List.length h
  simp [wire, header_size] at hlen

/-- The session after its stream sent what was pending. -/
theorem holding_sent (hidle : c.session.output = []) {f : Frame} (hf : f.type = .serial)
    (p : Stream.Pending) : Sent (c.to_peer.bytes ≠ []) c ((c.holding f).put_to_peer p) := by
  refine ⟨rfl, rfl, rfl, rfl, rfl, .inl rfl, fun hne => absurd hidle hne,
    fun _ _ => ⟨?_, wire_ne_nil f⟩⟩
  have hsame : ((c.holding f).put_to_peer p).tenure = (c.holding f).tenure := tenure_congr rfl rfl
  rw [hsame, holding_tenure, if_pos hf]

/-- One that is still sending sends nothing more. -/
theorem put_to_peer_sent (hbusy : c.session.output ≠ []) (p : Stream.Pending) :
    Sent (c.to_peer.bytes ≠ []) c (c.put_to_peer p) :=
  ⟨rfl, rfl, rfl, rfl, rfl, .inl rfl, fun _ => ⟨tenure_congr rfl rfl, rfl⟩,
    fun hnil => absurd hnil hbusy⟩

/-- The half to the peer: one serial frame, if the output is free. -/
theorem Emitted.sent (h : Emitted c c') : Sent (c.to_peer.bytes ≠ []) c c' := by
  cases h with
  | nothing empty =>
    exact ⟨rfl, rfl, rfl, rfl, rfl, .inl rfl, fun _ => ⟨rfl, rfl⟩, fun _ hne => absurd empty hne⟩
  | busy busy => exact put_to_peer_sent busy _
  | framed idle some => exact holding_sent idle rfl _

variable [StreamBackend β]

theorem Pushed.quiet (h : Pushed c c') :
    Quiet c c' ∧ c'.to_peer = c.to_peer ∧ (c'.channel.backend = c.channel.backend ∨
      ∃ data, c'.channel.backend = (StreamBackend.write c.channel.backend data).2) := by
  cases h with
  | nothing => exact ⟨.refl c, rfl, .inl rfl⟩
  | taken some le write =>
    refine ⟨quiet_of_session rfl _ rfl (by simp [unmarked]), rfl, .inr ⟨c.to_backend.bytes, ?_⟩⟩
    rw [write]
    rfl
  | overlong lt write =>
    refine ⟨quiet_of_session rfl [] (by simp) (by simp), rfl, .inr ⟨c.to_backend.bytes, ?_⟩⟩
    rw [write]

/-- What the backend returns fills an empty buffer. -/
theorem Fetched.quiet {ok : Bool} (h : Fetched c ok c') : Quiet c c' ∧ (ok = true →
    c.to_peer.bytes ≠ [] ∨ (StreamBackend.read c.channel.backend Stream.capacity).1 ≠ [] →
      c'.to_peer.bytes ≠ []) := by
  cases h with
  | pending some => exact ⟨.refl c, fun _ _ => some⟩
  | taken peak empty le read =>
    refine ⟨quiet_of_session rfl _ rfl (by simp [unmarked]), fun _ hsome => ?_⟩
    rcases hsome with hne | hne
    · exact absurd empty hne
    · rw [read] at hne
      exact hne
  | overlong lt read => exact ⟨quiet_of_session rfl [] (by simp) (by simp), fun h => by cases h⟩

/-! ## One reply -/

theorem release_tenure (t u : UInt32) (channel : Channel β) :
    Firmingo.tenure t (channel.release u).history = Firmingo.tenure t channel.history := by
  unfold Channel.release
  simp only
  split
  · have hh : ({ channel with stream := (channel.stream.close u).2 }.retire u).history
        = channel.history ++ [.closed u, .discard u] := by
      simp [Channel.retire, Channel.call_closed, Channel.call_discard, Channel.record]
    rw [hh]
    exact tenure_unmarked _ _ (by simp [unmarked])
  · rfl

variable [UploadService υ]

theorem let_go_tenure (c : Ctx β υ) : c.let_go.tenure = c.tenure := by
  unfold tenure let_go
  simp only
  split
  · exact release_tenure _ _ _
  · rfl

theorem finish_tenure (c : Ctx β υ) (result : SessionResult) : (c.finish result).tenure = c.tenure :=
  let_go_tenure c

theorem replied_finish (c : Ctx β υ) {result : SessionResult} (hr : result ≠ .running) :
    Replied c (c.finish result) :=
  ⟨rfl, .inl ⟨hr, finish_tenure c result⟩, fun h => by cases h⟩

theorem replied_say (hrun : c.session.result = .running) (id : ℕ) (reply : Reply) :
    Replied c (c.say id reply) := by
  rcases c.say_cases id reply with h | ⟨-, -, -, h⟩
  · rw [h]
    exact replied_finish c (by decide)
  · rw [h]
    exact ⟨rfl, .inr ⟨hrun, holding_tenure c _, _, rfl, rfl⟩, fun ho => ⟨ho, rfl⟩⟩

/-! ## One dispatch -/

/-- The ends of a dispatch: the reply has been made, and the decoder is reset. -/
theorem Prepared.settle {c0 : Ctx β υ} (h : Prepared c c0) (now : UInt32) (id : ℕ) (o : Outcome) :
    Dispatched c (c0.settle now id o) := by
  cases o with
  | replied turn reply =>
    have hr := replied_say h.running id reply
    cases turn <;> exact h.dispatched hr rfl rfl (fun _ => rfl) rfl ⟨rfl, rfl⟩ fun ho => ⟨ho, rfl⟩
  | dismissed =>
    have hr := replied_say h.running id (.error "invalid_argument")
    unfold Ctx.settle
    generalize c0.say id (.error "invalid_argument") = c1 at hr ⊢
    exact h.dispatched hr rfl rfl (fun _ => rfl) (let_go_tenure c1.reset_decoder) ⟨rfl, rfl⟩
      fun ho => by cases ho
  | abandoned =>
    exact h.dispatched (replied_finish c0 (by decide)) rfl rfl (fun _ => rfl) rfl ⟨rfl, rfl⟩
      fun ho => ⟨ho, rfl⟩

/-- An open is the one errand that starts a tenure. -/
theorem acquire_prepared (hrun : c.session.result = .running) (h0 : c.session.owner ≠ 0)
    (howned : c.session.owned = false) (now : UInt32) (configuration : Option SerialConfiguration) :
    Prepared c (c.perform now (some (.acquire configuration))) := by
  simp only [perform]
  rcases c.channel.acquire_shared h0 now configuration with ⟨hne, hs⟩ | ⟨hok, hfree, hs⟩
  · rw [decide_eq_false hne, Bool.or_false]
    exact prepared_channel hrun (congrArg Shared.history hs)
  · rw [decide_eq_true hok, Bool.or_true]
    generalize c.channel.acquire c.session.owner now configuration = acquired at hs ⊢
    refine ⟨rfl, hrun, rfl, fun h => absurd (howned.symm.trans h) (by decide), fun _ _ => ?_⟩
    have hh : acquired.2.history = c.channel.history ++ opening c.session.owner :=
      congrArg Shared.history hs
    rw [Ctx.tenure, hh]
    exact since_opening _ _ _

/-- The errand of a frame leaves the order of replies alone. -/
theorem perform_prepared (hrun : c.session.result = .running) (h0 : c.session.owner ≠ 0) (now : UInt32)
    (memory : Option MemorySamples) : Prepared c (c.perform now (c.errand memory)) := by
  rcases he : c.errand memory with _ | e
  · exact .refl hrun
  have hpermits := errand_permitted he
  cases e with
  | service call => exact prepared_of_history hrun rfl rfl rfl id rfl
  | status id => exact .refl hrun
  | negotiate offer =>
    simp only [perform]
    split <;> exact prepared_of_history hrun rfl rfl rfl id rfl
  | acquire configuration => exact acquire_prepared hrun h0 hpermits.1 now configuration
  | configure configuration =>
    exact prepared_channel hrun (congrArg Shared.history (c.channel.configure_shared _ _))
  | release =>
    exact prepared_of_history hrun rfl rfl rfl (fun h => by cases h) (release_tenure _ _ _)
  | report => exact prepared_channel hrun rfl

/-- **A control frame gets one reply**, or ends the session. -/
theorem dispatch_dispatched (hrun : c.session.result = .running) (h0 : c.session.owner ≠ 0)
    (hcontrol : is_control c.session.decoder.type = true) (now : UInt32)
    (memory : Option MemorySamples) : Dispatched c (c.dispatch now memory) := by
  obtain ⟨o, -, heq⟩ := dispatch_settles (c := c) now memory (by simpa [is_control] using hcontrol)
  rw [heq]
  exact (perform_prepared hrun h0 now memory).settle now _ o

/-! ## One pump -/

/-- There is something to send: it is pending, or the backend returns it, even after it
was written to. -/
def Supplied (c : Ctx β υ) : Prop :=
  c.to_peer.bytes ≠ [] ∨
    ∀ b, (b = c.channel.backend ∨ ∃ data, b = (StreamBackend.write c.channel.backend data).2) →
      (StreamBackend.read b Stream.capacity).1 ≠ []

theorem inward_quiet (c : Ctx β υ) : Quiet c c.inward.state ∧
    (Supplied c → c.inward.state.to_peer.bytes ≠ [] ∨
      (StreamBackend.read c.inward.state.channel.backend Stream.capacity).1 ≠ []) := by
  obtain ⟨c₁, hpulled, hpushed⟩ := inward_halves c
  obtain ⟨hfill, hpeer, hbackend⟩ := hpulled.quiet
  obtain ⟨hdrain, hpeer', hbackend'⟩ := hpushed.quiet
  rw [hbackend] at hbackend'
  refine ⟨hfill.trans hdrain, fun hs => ?_⟩
  rcases hs with hs | hs
  · exact .inl (by rw [hpeer', hpeer]; exact hs)
  · exact .inr (hs _ hbackend')

/-- The outward pump fails before anything is sent, or it sends. -/
theorem outward_sent (h : Alive c) : c.outward.ok = false ∧ Quiet c c.outward.state ∨
    c.outward.ok = true ∧ Sent (Supplied c) c c.outward.state := by
  obtain ⟨hquiet, hsome⟩ := inward_quiet c
  rcases outward_halves h with ⟨hok, hfetched⟩ | ⟨hok, c₁, hfetched, _, hemitted⟩
  · exact .inl ⟨hok, hquiet.trans hfetched.quiet.1⟩
  · obtain ⟨hfill, hfilled⟩ := hfetched.quiet
    refine .inr ⟨hok, (hquiet.sent (hfill.sent hemitted.sent)).mono ?_⟩
    exact fun hs => hfilled rfl (hsome hs)

/-- The end of a tenure leaves no mark. -/
theorem retired_finish_tenure (c : Ctx β υ) (result : SessionResult) :
    (c.retired.finish result).tenure = c.tenure := by
  rw [finish_tenure]
  have hh : c.retired.channel.history
      = c.channel.history ++ [.closed c.session.owner, .discard c.session.owner] := by
    simp [retired, Channel.retire, Channel.call_closed, Channel.call_discard, Channel.record, set_stream]
  unfold Ctx.tenure
  rw [hh]
  exact tenure_unmarked _ _ (by simp [unmarked])

/-- **A pump sends one serial frame** if the output is free and there is something to
send, or it ends the session. -/
theorem pump_sent (h : Alive c) (now : UInt32) :
    (c.pump now).session.result ≠ .running ∧ (c.pump now).session.owner = c.session.owner ∧
      (c.pump now).tenure = c.tenure ∨
    Sent (Supplied c) c (c.pump now) := by
  have hway := pump_way h now
  generalize c.pump now = c' at hway ⊢
  cases hway with
  | went ok stream_at session_at credited =>
    rcases outward_sent h with ⟨hbad, _⟩ | ⟨_, hsent⟩
    · rw [ok] at hbad
      cases hbad
    · exact .inr (hsent.progressed _ _)
  | failed c₁ stopped =>
    have hquiet : Quiet c c₁ := by
      rcases stopped with rfl | rfl | ⟨hbad, rfl⟩
      · exact .refl _
      · exact (inward_quiet c).1
      · rcases outward_sent h with ⟨_, hq⟩ | ⟨hgood, _⟩
        · exact hq
        · rw [hgood] at hbad
          cases hbad
    rw [retired_finish_tenure]
    exact .inl ⟨fun h => (by cases h), hquiet.owner, hquiet.tenure⟩

end Ctx

end Firmingo
