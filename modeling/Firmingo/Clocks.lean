/-
The clocks of a session: what each part of a poll does to them.

A session keeps four times: when it was constructed, when a byte last moved, when the frame
in its decoder began, and when it started to close. They are set in few places, and each
place has its reason: `frame_at` with the first byte of a frame, `closing_at` with a malformed
request, `progress_at` with bytes that moved. A dispatch sets none but `closing_at`, and the
pump credits progress only where it carried something.
-/
import Firmingo.Effects
import Firmingo.Turns

set_option autoImplicit false

open Octets

namespace Firmingo

open Protocol Machine

variable {β υ : Type}

/-! ## Bytes that move -/

/-- The event moves bytes: between the transport and the output buffer, between the queues
and the backend, or from a queue into the output buffer. -/
def carries : Event → Bool
  | .sent _ bytes | .backend_read bytes | .backend_write bytes => bytes ≠ []
  | .queued _ f _ => f.type = .serial
  | _ => false

/-- The event is one of the stream: no session begins, no frame arrives and no response is
queued. -/
def streaming : Event → Bool
  | .created _ | .received _ _ => false
  | .queued _ f _ => f.type = .serial
  | _ => true

namespace Ctx

variable {now : UInt32} {c c' c'' : Ctx β υ}

/-- The data of the serial frame in the decoder that the stream has not taken yet. -/
def held (c : Ctx β υ) : List Byte := c.session.party.held

/-- The bytes that a poll reads from the transport, where it gets so far. -/
def taken (c : Ctx β υ) (input : PollInput) : List Byte :=
  if c.session.closing || c.session.decoder.state ≠ .incomplete then []
  else input.read (min c.session.decoder.needed 256)

/-- Some byte moved between two states: an event carried it, or the stream took it from the
frame in the decoder. -/
def moved (c c' : Ctx β υ) : Bool :=
  (c'.channel.history.drop c.channel.history.length).any carries || c'.held.length < c.held.length

theorem moved_of_event (more : List Event) (hh : c'.channel.history = c.channel.history ++ more)
    (hcarry : ∃ e ∈ more, carries e = true) : moved c c' = true := by
  unfold moved
  rw [hh, List.drop_left, Bool.or_eq_true]
  exact .inl (List.any_eq_true.mpr hcarry)

theorem moved_of_held (h : c'.held.length < c.held.length) : moved c c' = true := by
  unfold moved
  rw [Bool.or_eq_true]
  exact .inr (decide_eq_true h)

/-- A decoder that has not started holds nothing. -/
theorem held_eq_nil (h : c.session.decoder.started = false) : c.held = [] := by
  have hbytes : c.session.decoder.bytes = [] := by
    simpa [Decoder.started] using h
  simp [held, Session.party, Party.held, Decoder.payload, hbytes]

/-- What moved in one part has moved in the whole. -/
theorem moved_trans (hfirst : ∃ more, c'.channel.history = c.channel.history ++ more)
    (hlater : ∃ more, c''.channel.history = c'.channel.history ++ more)
    (hheld : c'.held.length ≤ c.held.length) (hheld' : c''.held.length ≤ c'.held.length)
    (h : moved c c' = true ∨ moved c' c'' = true) : moved c c'' = true := by
  obtain ⟨more, hmore⟩ := hfirst
  obtain ⟨rest, hrest⟩ := hlater
  have hdrop : c''.channel.history.drop c.channel.history.length = more ++ rest := by
    rw [hrest, hmore, List.append_assoc, List.drop_left]
  have hdrop' : c''.channel.history.drop c'.channel.history.length = rest := by
    rw [hrest, List.drop_left]
  rw [moved, hdrop]
  rw [moved, moved, hdrop', hmore, List.drop_left] at h
  simp only [List.any_append, Bool.or_eq_true, decide_eq_true_eq] at h ⊢
  rcases h with (h | h) | (h | h)
  · exact .inl (.inl h)
  · exact .inr (by omega)
  · exact .inl (.inr h)
  · exact .inr (by omega)

/-! ## The halves of a pump -/

/-- A half of the pump: the session changes in its buffers alone, and either nothing that is
compared has changed or something was carried. -/
structure Carried (c c' : Ctx β υ) : Prop where
  session : c'.session = { c.session with
    output := c'.session.output
    decoder := c'.session.decoder
    data_offset := c'.session.data_offset }
  upload : c'.upload = c.upload
  decoder : c'.session.decoder = c.session.decoder ∨ c'.session.decoder.started = false
  held_le : c'.held.length ≤ c.held.length
  streamed : ∃ more, c'.channel.history = c.channel.history ++ more ∧
    ∀ e ∈ more, streaming e = true
  reason : Still c c' ∨ moved c c' = true

theorem Carried.history (h : Carried c c') : ∃ more, c'.channel.history = c.channel.history ++ more := by
  obtain ⟨more, hmore, -⟩ := h.streamed
  exact ⟨more, hmore⟩

theorem Still.trans (h : Still c c') (h' : Still c' c'') : Still c c'' :=
  ⟨h'.rx_bytes.trans h.rx_bytes, h'.tx_bytes.trans h.tx_bytes, h'.pending_rx.trans h.pending_rx,
    h'.pending_tx.trans h.pending_tx, h'.output.trans h.output⟩

/-- What a pump carries over adds up. -/
theorem Carried.trans (h : Carried c c') (h' : Carried c' c'') : Carried c c'' := by
  refine ⟨?_, h'.upload.trans h.upload, ?_, h'.held_le.trans h.held_le, ?_, ?_⟩
  · rw [h'.session, h.session]
  · rcases h'.decoder with hsame | hstopped
    · rw [hsame]
      exact h.decoder
    · exact .inr hstopped
  · obtain ⟨more, hmore, hstream⟩ := h.streamed
    obtain ⟨more', hmore', hstream'⟩ := h'.streamed
    refine ⟨more ++ more', by rw [hmore', hmore, List.append_assoc], ?_⟩
    intro e he
    rcases List.mem_append.mp he with hfirst | hlater
    · exact hstream e hfirst
    · exact hstream' e hlater
  · rcases h.reason with hstill | hmoved
    · rcases h'.reason with hstill' | hmoved'
      · exact .inl (hstill.trans hstill')
      · exact .inr (moved_trans h.history h'.history h.held_le h'.held_le (.inr hmoved'))
    · exact .inr (moved_trans h.history h'.history h.held_le h'.held_le (.inl hmoved))

/-- A half that shows nothing but in the backend. -/
theorem carried_of_same (hs : c'.session = c.session) (hu : c'.upload = c.upload)
    (hc : c'.channel.shared = c.channel.shared) : Carried c c' := by
  have hheld : c'.held = c.held := by rw [held, held, hs]
  have hrx : c'.channel.rx_bytes = c.channel.rx_bytes := congrArg Shared.rx_bytes hc
  have htx : c'.channel.tx_bytes = c.channel.tx_bytes := congrArg Shared.tx_bytes hc
  have hin : c'.channel.stream.to_backend.bytes = c.channel.stream.to_backend.bytes :=
    congrArg Shared.to_backend hc
  have hout : c'.channel.stream.to_peer.bytes = c.channel.stream.to_peer.bytes :=
    congrArg Shared.to_peer hc
  have hhistory : c'.channel.history = c.channel.history := congrArg Shared.history hc
  refine ⟨by rw [hs], hu, .inl (by rw [hs]), by rw [hheld],
    ⟨[], by rw [hhistory, List.append_nil], by simp⟩, .inl ?_⟩
  exact ⟨hrx, htx, congrArg List.length hin, congrArg List.length hout, by rw [hs]⟩

/-- A half that moves bytes. -/
theorem carried_of_event {more : List Event} (hs : c'.session = { c.session with
      output := c'.session.output
      decoder := c'.session.decoder
      data_offset := c'.session.data_offset }) (hu : c'.upload = c.upload)
    (hd : c'.session.decoder = c.session.decoder) (ho : c'.session.data_offset = c.session.data_offset)
    (hh : c'.channel.history = c.channel.history ++ more) (hstream : ∀ e ∈ more, streaming e = true)
    (hreason : Still c c' ∨ ∃ e ∈ more, carries e = true) : Carried c c' := by
  have hheld : c'.held = c.held := by
    unfold held Party.held Session.party
    simp only
    rw [hd, ho]
  refine ⟨hs, hu, .inl hd, by rw [hheld], ⟨more, hh, hstream⟩, ?_⟩
  rcases hreason with hstill | hcarry
  · exact .inl hstill
  · exact .inr (moved_of_event more hh hcarry)

theorem add_zero_count (counter : ℕ) : add counter 0 = counter := by
  simp [add]

/-- How much of a serial frame is left. -/
theorem held_length (h : Alive c) (hr : c.session.decoder.state = .ready)
    (hs : c.session.decoder.type = .serial) :
    c.held.length = c.session.decoder.size - 4 - c.session.data_offset := by
  have hlen : c.session.decoder.payload.length = c.session.decoder.size :=
    Decoder.Wf.payload_length h.inv.wf hr
  simp only [held, Session.party, Party.held, hr, hs, and_self, if_true, List.length_drop, hlen]
  omega

/-- The stream takes some of a serial frame. -/
theorem consume_carried (h : Alive c) (hempty : c.to_backend.bytes = [])
    (hr : c.session.decoder.state = .ready) (hs : c.session.decoder.type = .serial) {count : ℕ}
    (hcount : count = min Stream.capacity (c.session.decoder.size - 4 - c.session.data_offset))
    {p : Stream.Pending} (hp : p.bytes = c.held.take count) :
    Carried c ((c.consume count).put_to_backend p) := by
  have hlen := held_length h hr hs
  have hcapacity : 0 < Stream.capacity := by decide
  unfold consume
  split
  · -- the frame is used up
    have hnone : (({ c with session :=
        { c.session with decoder := c.session.decoder.reset, data_offset := 0 } } : Ctx β υ).put_to_backend
          p).held = [] := rfl
    refine ⟨rfl, rfl, .inr rfl, by rw [hnone]; exact Nat.zero_le _,
      ⟨[], (List.append_nil _).symm, by simp⟩, ?_⟩
    by_cases hzero : c.held.length = 0
    · refine .inl ⟨rfl, rfl, ?_, rfl, rfl⟩
      have hheld : c.held = [] := List.length_eq_zero_iff.mp hzero
      rw [hheld, List.take_nil] at hp
      exact congrArg List.length (hp.trans hempty.symm)
    · exact .inr (moved_of_held (by rw [hnone]; exact Nat.pos_of_ne_zero hzero))
  · next hmore =>
    have hless : (({ c with session :=
        { c.session with data_offset := c.session.data_offset + count } } : Ctx β υ).put_to_backend
          p).held.length = c.held.length - count := by
      have hpayload : c.session.decoder.payload.length = c.session.decoder.size :=
        Decoder.Wf.payload_length h.inv.wf hr
      simp only [held, put_to_backend, set_stream, Session.party, Party.held, hr, hs, and_self, if_true,
        List.length_drop]
      omega
    have hoffset : c.session.data_offset = 0 ∨ c.session.decoder.state = .ready ∧
        c.session.decoder.type = .serial ∧ c.session.data_offset + 4 < c.session.decoder.size :=
      h.inv.offset
    refine ⟨rfl, rfl, .inl rfl, by rw [hless]; exact Nat.sub_le _ _,
      ⟨[], (List.append_nil _).symm, by simp⟩, .inr (moved_of_held ?_)⟩
    rw [hless]
    omega

theorem Pulled.carried (h : Pulled c c') (ha : Alive c) : Carried c c' := by
  cases h with
  | pending => exact carried_of_same rfl rfl rfl
  | nothing empty peak =>
    have hbytes : c.channel.stream.to_backend.bytes = [] := empty
    refine carried_of_same rfl rfl ?_
    simp only [put_to_backend, set_stream, Channel.shared, stream, hbytes]
  | taken empty ready serial peak count_eq => exact consume_carried ha empty ready serial count_eq rfl

theorem Emitted.carried (h : Emitted c c') : Carried c c' := by
  cases h with
  | nothing empty => exact carried_of_same rfl rfl rfl
  | busy busy => exact carried_of_same rfl rfl rfl
  | framed idle some =>
    exact carried_of_event rfl rfl rfl rfl rfl (by simp [streaming])
      (.inr ⟨_, List.mem_singleton_self _, rfl⟩)

section Backend

variable [StreamBackend β]

theorem Pushed.carried (h : Pushed c c') : Carried c c' := by
  cases h with
  | nothing => exact carried_of_same rfl rfl rfl
  | @taken n b some le write =>
    refine carried_of_event rfl rfl rfl rfl rfl (by simp [streaming]) ?_
    by_cases hzero : n = 0
    · subst hzero
      exact .inl ⟨add_zero_count _, rfl, rfl, rfl, rfl⟩
    · refine .inr ⟨_, List.mem_singleton_self _, ?_⟩
      simp [carries, hzero, some]
  | overlong lt write => exact carried_of_same rfl rfl rfl

theorem Fetched.carried {ok : Bool} (h : Fetched c ok c') : Carried c c' := by
  cases h with
  | pending some => exact carried_of_same rfl rfl rfl
  | @taken bytes b peak empty le read =>
    refine carried_of_event rfl rfl rfl rfl rfl (by simp [streaming]) ?_
    by_cases hnone : bytes = []
    · subst hnone
      refine .inl ⟨rfl, add_zero_count _, rfl, ?_, rfl⟩
      exact congrArg List.length empty.symm
    · exact .inr ⟨_, List.mem_singleton_self _, by simpa [carries] using hnone⟩
  | overlong lt read => exact carried_of_same rfl rfl rfl

end Backend

/-! ## Dispatch -/

variable [UploadService υ]

/-- A session that has told the service that it leaves calls it no more, and one that has the
service tells it by its last call. -/
structure Parted (c c' : Ctx β υ) : Prop where
  silent : c.session.upload_released = true →
    c'.session.upload_released = true ∧ c'.upload = c.upload
  told : c.session.upload_released = false → c'.session.upload_released = true →
    c.session.has_upload = true → ∃ u, c'.upload = UploadService.disconnect u c.session.owner

/-- What a dispatch may do to the clocks. -/
structure Clocked (now : UInt32) (c c' : Ctx β υ) : Prop where
  owner : c'.session.owner = c.session.owner
  attached : c'.session.has_upload = c.session.has_upload
  started_at : c'.session.started_at = c.session.started_at
  progress_at : c'.session.progress_at = c.session.progress_at
  frame_at : c'.session.frame_at = c.session.frame_at
  running : c'.session.result = .running → c.session.result = .running
  negotiated : c.session.negotiated = true → c'.session.negotiated = true
  closing : c'.session.closing = c.session.closing ∧ c'.session.closing_at = c.session.closing_at ∨
    c.session.closing = false ∧ c'.session.closing = true ∧ c'.session.closing_at = now
  released : c'.session.result = .running → c'.session.closing = false →
    c'.session.upload_released = c.session.upload_released
  parted : Parted c c'
  decoder : c'.session.decoder = c.session.decoder ∧ c'.session.closing = c.session.closing ∨
    c'.session.decoder.started = false
  held_le : c'.held.length ≤ c.held.length

theorem Parted.of_same (hreleased : c'.session.upload_released = c.session.upload_released)
    (hupload : c'.upload = c.upload) : Parted c c' :=
  ⟨fun h => ⟨hreleased.trans h, hupload⟩, fun h h' => by rw [hreleased, h] at h'; cases h'⟩

/-- A session parts from the service in one of two stretches, not in both. -/
theorem Parted.trans (howner : c'.session.owner = c.session.owner)
    (hattached : c'.session.has_upload = c.session.has_upload) (h : Parted c c') (h' : Parted c' c'') :
    Parted c c'' := by
  refine ⟨?_, ?_⟩
  · intro hreleased
    obtain ⟨hr, hu⟩ := h.silent hreleased
    obtain ⟨hr', hu'⟩ := h'.silent hr
    exact ⟨hr', hu'.trans hu⟩
  · intro hopen hreleased has
    cases hr : c'.session.upload_released with
    | false =>
      rw [← howner]
      exact h'.told hr hreleased (hattached.trans has)
    | true =>
      rw [(h'.silent hr).2]
      exact h.told hopen hr has

/-- Clocks that were set stay set. -/
theorem Clocked.trans (h : Clocked now c c') (h' : Clocked now c' c'') : Clocked now c c'' := by
  refine ⟨h'.owner.trans h.owner, h'.attached.trans h.attached, h'.started_at.trans h.started_at,
    h'.progress_at.trans h.progress_at, h'.frame_at.trans h.frame_at,
    fun hrun => h.running (h'.running hrun), fun hneg => h'.negotiated (h.negotiated hneg), ?_, ?_,
    h.parted.trans h.owner h.attached h'.parted, ?_, h'.held_le.trans h.held_le⟩
  · rcases h'.closing with ⟨hc, ha⟩ | ⟨hopen, hnew⟩
    · rw [hc, ha]
      exact h.closing
    · rcases h.closing with ⟨hc, _⟩ | ⟨hopen', _⟩
      · exact .inr ⟨hc.symm.trans hopen, hnew⟩
      · exact .inr ⟨hopen', hnew⟩
  · intro hrun hopen
    have hopen' : c'.session.closing = false := by
      rcases h'.closing with ⟨hc, _⟩ | ⟨_, hc, _⟩
      · rw [← hc]
        exact hopen
      · rw [hc] at hopen
        cases hopen
    exact (h'.released hrun hopen).trans (h.released (h'.running hrun) hopen')
  · rcases h'.decoder with ⟨hd, hc⟩ | hstopped
    · rw [hd, hc]
      exact h.decoder
    · exact .inr hstopped

/-- A step of the session that leaves its clocks and its service. -/
theorem clocked_of_same (hs : c'.session = { c.session with
      output := c'.session.output
      owned := c'.session.owned
      data_turn := c'.session.data_turn
      decoder := c'.session.decoder
      data_offset := c'.session.data_offset }) (hu : c'.upload = c.upload)
    (hd : c'.session.decoder = c.session.decoder ∨ c'.session.decoder.started = false)
    (hheld : c'.held.length ≤ c.held.length) : Clocked now c c' := by
  have hclosing : c'.session.closing = c.session.closing := by rw [hs]
  refine ⟨?_, ?_, ?_, ?_, ?_, ?_, ?_, .inl ⟨hclosing, ?_⟩, ?_, .of_same ?_ hu,
    hd.imp_left fun hd => ⟨hd, hclosing⟩, hheld⟩
  all_goals
    rw [hs]
    try first | rfl | exact id | exact fun _ _ => rfl

theorem Clocked.refl (c : Ctx β υ) : Clocked now c c := clocked_of_same rfl rfl (.inl rfl) le_rfl

theorem Clocked.reset (h : Clocked now c c') : Clocked now c c'.reset_decoder :=
  h.trans (clocked_of_same rfl rfl (.inr rfl) (Nat.zero_le _))

/-- A call of the service. -/
theorem called_clocked (hopen : c.session.upload_released = false) (upload : υ) :
    Clocked now c { c with upload := upload } := by
  refine ⟨rfl, rfl, rfl, rfl, rfl, id, id, .inl ⟨rfl, rfl⟩, fun _ _ => rfl, ⟨?_, ?_⟩, .inl ⟨rfl, rfl⟩, le_rfl⟩
  · intro hreleased
    rw [hopen] at hreleased
    cases hreleased
  · intro _ hreleased
    exact absurd (hreleased.symm.trans hopen) (by decide)

theorem negotiate_started {d d' : Decoder} {offer : ℕ} (h : d.reset.negotiate offer = some d') :
    d'.started = false := by
  unfold Decoder.negotiate at h
  split at h
  · cases h
  · cases h
    rfl

variable [StreamBackend β]

theorem let_go_parted (c : Ctx β υ) : Parted c c.let_go := by
  refine ⟨fun hreleased => ⟨rfl, ?_⟩, fun hopen _ has => ⟨c.upload, ?_⟩⟩
  · simp only [let_go, hreleased, Bool.not_true, Bool.and_false, Bool.false_eq_true, if_false]
  · simp only [let_go, hopen, has, Bool.not_false, Bool.and_true, if_true]

theorem finish_clocked (c : Ctx β υ) {result : SessionResult} (hr : result ≠ .running) :
    Clocked now c (c.finish result) :=
  ⟨rfl, rfl, rfl, rfl, rfl, fun hrun => absurd hrun hr, id, .inl ⟨rfl, rfl⟩,
    fun hrun => absurd hrun hr, ⟨(let_go_parted c).silent, (let_go_parted c).told⟩, .inr rfl,
    Nat.zero_le _⟩

theorem say_clocked (c : Ctx β υ) (id : ℕ) (reply : Reply) : Clocked now c (c.say id reply) := by
  rcases c.say_cases id reply with h | ⟨-, -, -, h⟩
  · rw [h]
    exact finish_clocked c (by decide)
  · rw [h]
    exact clocked_of_same rfl rfl (.inl rfl) le_rfl

/-- The answer to malformed JSON is the one place where a session starts to close. -/
theorem dismissed_clocked (hclosing : c.session.closing = false) (id : ℕ) :
    Clocked now c (c.settle now id .dismissed) := by
  have hreply : Clocked now c (c.say id (.error "invalid_argument")).reset_decoder :=
    (say_clocked c _ _).reset
  have hparted : Parted c (c.say id (.error "invalid_argument")).reset_decoder.let_go :=
    hreply.parted.trans hreply.owner hreply.attached (let_go_parted _)
  exact ⟨hreply.owner, hreply.attached, hreply.started_at, hreply.progress_at, hreply.frame_at,
    hreply.running, hreply.negotiated, .inr ⟨hclosing, rfl, rfl⟩, fun _ hopen => (by cases hopen),
    ⟨hparted.silent, hparted.told⟩, .inr rfl, Nat.zero_le _⟩

theorem settle_clocked (hclosing : c.session.closing = false) (id : ℕ) (o : Outcome) :
    Clocked now c (c.settle now id o) := by
  cases o with
  | replied turn reply =>
    have hsaid : Clocked now c (c.say id reply) := say_clocked c id reply
    cases turn <;> exact hsaid.trans (clocked_of_same rfl rfl (.inr rfl) (Nat.zero_le _))
  | dismissed => exact dismissed_clocked hclosing id
  | abandoned => exact finish_clocked c (by decide)

theorem negotiate_clocked (c : Ctx β υ) (offer : ℕ) :
    Clocked now c (c.perform now (some (.negotiate offer))) := by
  simp only [perform]
  split
  · exact (Clocked.refl c).reset
  · next hdecoder =>
    have hstarted := negotiate_started hdecoder
    exact ⟨rfl, rfl, rfl, rfl, rfl, fun h => h, fun _ => rfl, .inl ⟨rfl, rfl⟩, fun _ _ => rfl,
      .of_same rfl rfl, .inr hstarted, by rw [held_eq_nil hstarted]; exact Nat.zero_le _⟩

/-- An errand sets no clock. -/
theorem perform_clocked (hopen : c.session.upload_released = false) (memory : Option MemorySamples) :
    Clocked now c (c.perform now (c.errand memory)) := by
  rcases c.errand memory with _ | e
  · exact .refl c
  cases e with
  | service call => exact called_clocked hopen _
  | status id => exact .refl c
  | negotiate offer => exact negotiate_clocked c offer
  -- what the channel does is not the session's
  | acquire | configure | release | report => exact clocked_of_same rfl rfl (.inl rfl) le_rfl

/-- **A dispatch sets no clock but that of a malformed request.** -/
theorem dispatch_clocked (hopen : c.session.upload_released = false)
    (hclosing : c.session.closing = false) (memory : Option MemorySamples) :
    Clocked now c (c.dispatch now memory) := by
  by_cases hcontrol : c.session.decoder.type = .request ∨ c.session.decoder.type = .upload
  · obtain ⟨o, -, heq⟩ := dispatch_settles now memory hcontrol
    have hperform : Clocked now c (c.perform now (c.errand memory)) := perform_clocked hopen memory
    rw [heq]
    refine hperform.trans (settle_clocked ?_ _ o)
    rw [perform_session]
    exact hclosing
  rcases dispatch_other now memory hcontrol with heq | ⟨result, hne, heq⟩
  · rw [heq]
    exact .refl c
  · rw [heq]
    exact finish_clocked c hne

/-! ## The pump -/

theorem inward_carried (h : Alive c) : Carried c c.inward.state := by
  obtain ⟨c₁, hpulled, hpushed⟩ := inward_halves c
  exact (hpulled.carried h).trans hpushed.carried

theorem outward_carried (h : Alive c) : Carried c c.outward.state := by
  have hin := inward_carried h
  rcases outward_halves h with ⟨_, hfetched⟩ | ⟨_, c₁, hfetched, _, hemitted⟩
  · exact hin.trans hfetched.carried
  · exact (hin.trans hfetched.carried).trans hemitted.carried

/-- What a pump leaves of a session that still runs: its buffers have changed, and the time of
progress if something was carried. -/
structure PumpedClocks (now : UInt32) (c c' : Ctx β υ) : Prop where
  session : c'.session = { c.session with
    output := c'.session.output
    decoder := c'.session.decoder
    data_offset := c'.session.data_offset
    progress_at := c'.session.progress_at }
  upload : c'.upload = c.upload
  decoder : c'.session.decoder = c.session.decoder ∨ c'.session.decoder.started = false
  held_le : c'.held.length ≤ c.held.length
  progress : c'.session.progress_at = c.session.progress_at ∨
    c'.session.progress_at = now ∧ moved c c' = true
  streamed : ∃ more, c'.channel.history = c.channel.history ++ more ∧
    ∀ e ∈ more, streaming e = true

/-- A pump that fails ends the session where it stopped. -/
theorem retired_clocked (h : Carried c c') :
    Clocked now c (c'.retired.finish .io_error) ∧ (c'.retired.finish .io_error).upload = c.let_go.upload := by
  have hstopped : Clocked now c c'.retired := by
    refine clocked_of_same ?_ h.upload h.decoder h.held_le
    have hsession := h.session
    simp only [retired, set_stream] at hsession ⊢
    rw [hsession]
  refine ⟨hstopped.trans (finish_clocked _ (by decide)), ?_⟩
  -- the service hears of the end from the state the halves have left it in
  simp only [finish, close, let_go, retired, set_stream, h.upload]
  rw [h.session]

/-- **A pump credits progress only where it carried something.** -/
theorem pump_clocks (h : Alive c) (now : UInt32) :
    PumpedClocks now c (c.pump now) ∨
      (c.pump now).session.result ≠ .running ∧ Clocked now c (c.pump now) ∧
        (c.pump now).upload = c.let_go.upload := by
  have hway := pump_way h now
  generalize c.pump now = c' at hway ⊢
  cases hway with
  | went ok stream_at session_at credited =>
    have hcarried := outward_carried h
    have hsession := hcarried.session
    refine .inl ⟨?_, hcarried.upload, hcarried.decoder, hcarried.held_le, ?_, hcarried.streamed⟩
    · simp only [progressed, set_stream] at hsession ⊢
      rw [hsession]
    · rcases credited with rfl | ⟨rfl, hchanged⟩
      · refine .inl ?_
        change c.outward.state.session.progress_at = _
        rw [hsession]
      · exact .inr ⟨rfl, hcarried.reason.resolve_left hchanged⟩
  | failed c₁ stopped =>
    have hcarried : Carried c c₁ := by
      rcases stopped with rfl | rfl | ⟨_, rfl⟩
      · exact carried_of_same rfl rfl rfl
      · exact inward_carried h
      · exact outward_carried h
    exact .inr ⟨by simp [finish], retired_clocked hcarried⟩

end Ctx

end Firmingo
