/-
The clocks of a session over a whole poll.

`Served` says what the stages of a poll do that do not feed the decoder: the clocks are kept,
but progress is credited where bytes moved. A poll is made of such stages, with at most one
read between them. What it leaves of a session that still runs is `Kept`, and what it leaves of
any session is `Sound` and `Parted`: a session that told the upload service that it left calls
it no more.
-/
import Firmingo.Clocks
import Firmingo.Transport

set_option autoImplicit false

open Octets

namespace Firmingo

open Protocol Machine

variable {β υ : Type}

/-! ## A whole poll -/

/-- A session that told the service that it left is closing or has ended, and one that is
closing has no frame. -/
structure Session.Sound (s : Session) : Prop where
  released : s.result = .running → s.upload_released = true → s.closing = true
  unstarted : s.closing = true → s.decoder.started = false

namespace Ctx

variable {c c' c'' : Ctx β υ} {now : UInt32} {input : PollInput}

theorem history_of_acts (h : Acts c.config c'.config) (hi : Inv c.config) :
    ∃ more, c'.channel.history = c.channel.history ++ more := by
  obtain ⟨more, hseen⟩ := Acts.seen h hi
  exact ⟨more, hseen.history⟩

variable [UploadService υ]

/-- The session with another time of progress. -/
def credit (c : Ctx β υ) (progress_at : UInt32) : Ctx β υ :=
  { c with session := { c.session with progress_at := progress_at } }

theorem Clocked.credit (h : Clocked now c c') (progress_at : UInt32) :
    Clocked now (c.credit progress_at) (c'.credit progress_at) :=
  ⟨h.owner, h.attached, h.started_at, rfl, h.frame_at, h.running, h.negotiated, h.closing, h.released,
    ⟨h.parted.silent, h.parted.told⟩, h.decoder, h.held_le⟩

/-- What the stages of a poll do that leave the transport's bytes aside: the clocks are kept
but for progress, which is credited where bytes moved. -/
structure Served (now : UInt32) (c c' : Ctx β υ) : Prop where
  clocked : Clocked now (c.credit c'.session.progress_at) c'
  progress : c'.session.progress_at = c.session.progress_at ∨
    c'.session.progress_at = now ∧ moved c c' = true
  history : ∃ more, c'.channel.history = c.channel.history ++ more

theorem Served.of_clocked (h : Clocked now c c')
    (hhistory : ∃ more, c'.channel.history = c.channel.history ++ more) : Served now c c' := by
  refine ⟨?_, .inl h.progress_at, hhistory⟩
  have hsame : c.credit c'.session.progress_at = c := by
    rw [h.progress_at]
    rfl
  rw [hsame]
  exact h

theorem Served.refl (c : Ctx β υ) : Served now c c := .of_clocked (.refl c) ⟨[], (List.append_nil _).symm⟩

/-- Two stages in a row: progress is credited if either moved bytes. -/
theorem Served.trans (h : Served now c c') (h' : Served now c' c'') : Served now c c'' := by
  have hheld : c'.held.length ≤ c.held.length := h.clocked.held_le
  have hheld' : c''.held.length ≤ c'.held.length := h'.clocked.held_le
  refine ⟨(h.clocked.credit c''.session.progress_at).trans h'.clocked, ?_, ?_⟩
  · rcases h'.progress with hsame | ⟨hnow, hmoved⟩
    · rcases h.progress with hsame' | ⟨hnow, hmoved⟩
      · exact .inl (hsame.trans hsame')
      · exact .inr ⟨hsame.trans hnow, moved_trans h.history h'.history hheld hheld' (.inl hmoved)⟩
    · exact .inr ⟨hnow, moved_trans h.history h'.history hheld hheld' (.inr hmoved)⟩
  · obtain ⟨more, hmore⟩ := h.history
    obtain ⟨more', hmore'⟩ := h'.history
    exact ⟨more ++ more', by rw [hmore', hmore, List.append_assoc]⟩

theorem Served.parted (h : Served now c c') : Parted c c' :=
  ⟨h.clocked.parted.silent, h.clocked.parted.told⟩

theorem Served.sound (h : Served now c c') (hsound : c.session.Sound) : c'.session.Sound := by
  have hclocked := h.clocked
  refine ⟨?_, ?_⟩
  · intro hrun hreleased
    cases hclosing : c'.session.closing with
    | true => rfl
    | false =>
      have hbefore : c.session.upload_released = true :=
        (hclocked.released hrun hclosing).symm.trans hreleased
      have hclosed : c.session.closing = true := hsound.released (hclocked.running hrun) hbefore
      rcases hclocked.closing with ⟨hsame, _⟩ | ⟨_, hnew, _⟩
      · exact absurd ((hclosing.symm.trans hsame).trans hclosed) (by decide)
      · exact absurd (hclosing.symm.trans hnew) (by decide)
  · intro hclosing
    rcases hclocked.decoder with ⟨hd, hc⟩ | hstopped
    · rw [hd]
      exact hsound.unstarted (hc.symm.trans hclosing)
    · exact hstopped

/-- A session that may dispatch: it has not left the service, and it is not closing. -/
structure Listening (c : Ctx β υ) : Prop where
  attached : c.session.upload_released = false
  open_ : c.session.closing = false

/-- A poll that read bytes: the output stage, the bytes that were read, and what follows. -/
structure Fed (input : PollInput) (c c' : Ctx β υ) : Prop where
  unexpired : c.expired input.now = none
  open_ : c.session.closing = false
  incomplete : c.session.decoder.state = .incomplete
  some_bytes : c.taken input ≠ []
  stages : ∃ c1 c2 : Ctx β υ, Served input.now c c1 ∧ c1.session.decoder = c.session.decoder ∧
    c1.session.closing = false ∧ c1.session.result = .running ∧
    c2.session = { c1.session with
      frame_at := if c.session.decoder.started then c1.session.frame_at else input.now
      decoder := c.session.decoder.feed (c.taken input)
      progress_at := input.now } ∧ c2.upload = c1.upload ∧ Served input.now c2 c'

/-- What a poll leaves of a session that still runs. -/
structure Kept (input : PollInput) (c c' : Ctx β υ) : Prop where
  running : c.session.result = .running
  unexpired : c.expired input.now = none
  started_at : c'.session.started_at = c.session.started_at
  negotiated : c.session.negotiated = true → c'.session.negotiated = true
  closing : c'.session.closing = c.session.closing ∧ c'.session.closing_at = c.session.closing_at ∨
    c.session.closing = false ∧ c'.session.closing = true ∧ c'.session.closing_at = input.now
  frame : c'.session.decoder.started = true → c'.session.decoder.state = .incomplete →
    c.session.decoder.started = true ∧ c.session.decoder.state = .incomplete ∧
        c'.session.frame_at = c.session.frame_at ∨
      c.session.decoder.started = false ∧ c.taken input ≠ [] ∧ c'.session.frame_at = input.now
  progress : c'.session.progress_at = c.session.progress_at ∨
    c'.session.progress_at = input.now ∧ (moved c c' = true ∨ c.taken input ≠ [])

theorem Served.kept (h : Served input.now c c') (hexpired : c.expired input.now = none)
    (hrun : c'.session.result = .running) : Kept input c c' := by
  have hclocked := h.clocked
  refine ⟨hclocked.running hrun, hexpired, hclocked.started_at, hclocked.negotiated, hclocked.closing,
    ?_, ?_⟩
  · intro hstarted hstate
    rcases hclocked.decoder with ⟨hd, _⟩ | hstopped
    · rw [hd] at hstarted hstate
      exact .inl ⟨hstarted, hstate, hclocked.frame_at⟩
    · exact absurd (hstarted.symm.trans hstopped) (by decide)
  · rcases h.progress with hsame | ⟨hnow, hmoved⟩
    · exact .inl hsame
    · exact .inr ⟨hnow, .inl hmoved⟩

/-- A poll that read bytes: the frame clock starts with the first byte of a frame. -/
theorem Fed.kept (h : Fed input c c') : Kept input c c' := by
  obtain ⟨c1, c2, hfirst, hdecoder, hclosing, hrun1, hfed, _, hlast⟩ := h.stages
  have hc1 := hfirst.clocked
  have hc' := hlast.clocked
  have hstarted_at : c2.session.started_at = c1.session.started_at := by rw [hfed]
  have hnegotiated : c2.session.negotiated = c1.session.negotiated := by rw [hfed]
  have hclosing2 : c2.session.closing = false := by
    rw [hfed]
    exact hclosing
  have hprogress : c2.session.progress_at = input.now := by rw [hfed]
  have hframe : c2.session.frame_at =
      if c.session.decoder.started then c.session.frame_at else input.now := by
    rw [hfed]
    change (if c.session.decoder.started = true then c1.session.frame_at else input.now) = _
    rw [hc1.frame_at]
    rfl
  refine ⟨hc1.running hrun1, h.unexpired, hc'.started_at.trans (hstarted_at.trans hc1.started_at),
    fun hn => hc'.negotiated (hnegotiated.trans (hc1.negotiated hn)), ?_, ?_, ?_⟩
  · rcases hc'.closing with ⟨hsame, hat⟩ | ⟨_, hnew⟩
    · have hat2 : c2.session.closing_at = c1.session.closing_at := by rw [hfed]
      rcases hc1.closing with ⟨_, hat1⟩ | ⟨_, hnew, _⟩
      · exact .inl ⟨hsame.trans (hclosing2.trans h.open_.symm), hat.trans (hat2.trans hat1)⟩
      · exact absurd (hnew.symm.trans hclosing) (by decide)
    · exact .inr ⟨h.open_, hnew⟩
  · intro hstarted hstate
    have hframe' : c'.session.frame_at = c2.session.frame_at := hc'.frame_at
    rw [hframe', hframe]
    by_cases hs : c.session.decoder.started = true
    · exact .inl ⟨hs, h.incomplete, if_pos hs⟩
    · exact .inr ⟨by simpa using hs, h.some_bytes, if_neg hs⟩
  · right
    refine ⟨?_, .inr h.some_bytes⟩
    rcases hlast.progress with hsame | ⟨hnow, _⟩
    · exact hsame.trans hprogress
    · exact hnow

/-! ## The stages -/

variable [StreamBackend β]

/-- A poll at which a deadline has passed ends the session. -/
theorem poll_on_ended {τ : Type} (io : ByteIO τ) (hrun : c.session.result = .running)
    {result : SessionResult} (h : c.expired now = some result) (memory : Option MemorySamples) (t : τ) :
    ∃ ending, ending ≠ .running ∧ (c.poll_on io now memory t).2 = c.finish ending := by
  unfold poll_on
  simp only [hrun, ne_eq, not_true_eq_false, if_false, h]
  split
  · exact ⟨.disconnected, by decide, rfl⟩
  · exact ⟨result, expired_ne_running h, rfl⟩

theorem pump_served (h : Alive c) (now : UInt32) : Served now c (c.pump now) := by
  have hhistory := history_of_acts (pump_acts h now).1 h.inv
  rcases pump_clocks h now with hp | ⟨_, hp, _⟩
  · refine ⟨clocked_of_same ?_ hp.upload hp.decoder hp.held_le, hp.progress, hhistory⟩
    have hsession := hp.session
    simp only [credit] at hsession ⊢
    rw [hsession]
  · exact .of_clocked hp hhistory

/-- A session that still runs after a pump has not left the service. -/
theorem pump_listening (h : Alive c) (hl : Listening c) (hrun : (c.pump now).session.result = .running) :
    Listening (c.pump now) := by
  rcases pump_clocks h now with hp | ⟨hne, _⟩
  · refine ⟨?_, ?_⟩
    · rw [hp.session]
      exact hl.attached
    · rw [hp.session]
      exact hl.open_
  · exact absurd hrun hne

/-- The output stage: progress is credited for the bytes that were sent. -/
theorem flush_served (hi : Inv c.config) (hrun : c.session.result = .running) (input : PollInput) :
    Served input.now c (c.flush input) := by
  have hhistory := history_of_acts (flush_acts hi hrun input) hi
  unfold flush at hhistory ⊢
  split
  · exact .refl c
  next hsome =>
  simp only
  split
  · next hover =>
    simp only [if_neg hsome, if_pos hover] at hhistory
    exact .of_clocked (finish_clocked c (by decide)) hhistory
  · next hover =>
    simp only [if_neg hsome, if_neg hover] at hhistory
    refine ⟨clocked_of_same rfl rfl (.inl rfl) le_rfl, ?_, hhistory⟩
    by_cases hzero : input.write c.session.output = 0
    · exact .inl (if_neg (not_not.mpr hzero))
    · refine .inr ⟨if_pos hzero, moved_of_event _ rfl ⟨_, List.mem_singleton_self _, ?_⟩⟩
      simp [carries, hzero, hsome]

/-- A flush that leaves a session running leaves all but its output. -/
theorem flush_running (hrun : (c.flush input).session.result = .running) :
    (c.flush input).session.decoder = c.session.decoder ∧
      (c.flush input).session.closing = c.session.closing ∧
      (c.flush input).session.upload_released = c.session.upload_released := by
  unfold flush at hrun ⊢
  split
  · exact ⟨rfl, rfl, rfl⟩
  next hsome =>
  simp only [if_neg hsome] at hrun ⊢
  split
  · next hover =>
    rw [if_pos hover] at hrun
    exact absurd hrun (by simp [finish])
  · exact ⟨rfl, rfl, rfl⟩

theorem flush_listening (hl : Listening c) (hrun : (c.flush input).session.result = .running) :
    Listening (c.flush input) := by
  obtain ⟨_, hclosing, hreleased⟩ := flush_running hrun
  exact ⟨hreleased.trans hl.attached, hclosing.trans hl.open_⟩

theorem Due.served (h : Due c) (hl : Listening c) (memory : Option MemorySamples) :
    Served now c (c.dispatch now memory) :=
  .of_clocked (dispatch_clocked hl.attached hl.open_ memory) (history_of_acts (h.acts now memory) h.inv)

theorem finish_served (hi : Inv c.config) {result : SessionResult} (hne : result ≠ .running) :
    Served now c (c.finish result) :=
  .of_clocked (finish_clocked c hne) (history_of_acts (finish_acts hi hne) hi)

theorem Move.served (h : Move input c c') (hi : Inv c.config) (hrun : c.session.result = .running) :
    Served input.now c c' := by
  cases h with
  | flush => exact flush_served hi hrun input
  | pump owned => exact pump_served ⟨hi, hrun, owned⟩ _
  | turn =>
    exact .of_clocked (clocked_of_same rfl rfl (.inl rfl) le_rfl) ⟨[], (List.append_nil _).symm⟩
  | finish ended => exact finish_served hi ended

theorem Moves.served (h : Moves input c c') : Served input.now c c' :=
  h.rule .refl .trans fun hi hrun hmove => hmove.served hi hrun

/-- A session that still runs after its moves still listens. -/
theorem Moves.listening (h : Moves input c c') (hl : Listening c)
    (hrun : c'.session.result = .running) : Listening c' := by
  induction h with
  | refl => exact hl
  | step _ inv running move ih =>
    have hl' := ih running
    cases move with
    | flush => exact flush_listening hl' hrun
    | pump owned => exact pump_listening ⟨inv, running, owned⟩ hl' hrun
    | turn => exact ⟨hl'.attached, hl'.open_⟩
    | finish ended => exact absurd hrun ended

/-- The frame stage. -/
theorem serve_served (hi : Inv c.config) (hrun : c.session.result = .running) (hl : Listening c)
    (input : PollInput) : Served input.now c (c.serve input) := by
  cases serve_serves hi hrun input with
  | moves moves => exact moves.served
  | executes before due after =>
    have hl₁ := before.listening hl due.running
    exact (before.served.trans (due.served hl₁ _)).trans after.served

/-- The ways of the input stage: nothing was read, or too much, or the decoder was fed and two
clocks are set. -/
theorem receive_ways (c : Ctx β υ) (input : PollInput) :
    c.receive input = c ∨ c.receive input = c.finish .io_error ∨
      c.session.decoder.state = .incomplete ∧ input.read (min c.session.decoder.needed 256) ≠ [] ∧
        (c.receive input).session = { c.session with
          frame_at := if c.session.decoder.started then c.session.frame_at else input.now
          decoder := c.session.decoder.feed (input.read (min c.session.decoder.needed 256))
          progress_at := input.now } ∧ (c.receive input).upload = c.upload := by
  unfold receive
  split
  · exact .inl rfl
  next hstate =>
  rw [not_not] at hstate
  simp only
  split
  · exact .inr (.inl rfl)
  split
  · exact .inl rfl
  next hsome =>
  refine .inr (.inr ⟨hstate, hsome, ?_⟩)
  split <;> exact ⟨rfl, rfl⟩

/-- **The ways of a poll**: the session had ended, or no byte was read, or some were. -/
theorem poll_ways (hi : Inv c.config) (hsound : c.session.Sound) (input : PollInput) :
    c.session.result ≠ .running ∧ c.poll input = c ∨
    c.session.result = .running ∧ Served input.now c (c.poll input) ∧
      ((c.poll input).session.result = .running → c.expired input.now = none) ∨
    c.session.result = .running ∧ Fed input c (c.poll input) := by
  unfold poll
  split
  · next hrun => exact .inl ⟨hrun, rfl⟩
  next hrun =>
  rw [not_not] at hrun
  right
  split
  · exact .inl ⟨hrun, finish_served hi (by decide), fun h => by cases h⟩
  cases hexpired : c.expired input.now with
  | some result =>
    have hne : result ≠ .running := expired_ne_running hexpired
    exact .inl ⟨hrun, finish_served hi hne, fun h => absurd h hne⟩
  | none =>
    have hflush := flush_served hi hrun input
    have hi1 := Acts.inv (flush_acts hi hrun input) hi
    simp only
    split
    · next hstop => exact .inl ⟨hrun, hflush, fun h => absurd h hstop⟩
    next hrun1 =>
    rw [not_not] at hrun1
    obtain ⟨hdecoder, hclosing, _⟩ := flush_running hrun1
    split
    · split
      · exact .inl ⟨hrun, hflush, fun _ => trivial⟩
      · exact .inl ⟨hrun, hflush.trans (finish_served hi1 (by decide)), fun _ => trivial⟩
    next hopen =>
    rw [Bool.not_eq_true] at hopen
    -- a session that has left the service is closing, and this one is not
    have hl1 : Listening (c.flush input) := by
      refine ⟨?_, hopen⟩
      by_contra hreleased
      have hclosed := (hflush.sound hsound).released hrun1 (by simpa using hreleased)
      exact absurd (hopen.symm.trans hclosed) (by decide)
    have hi2 := Acts.inv (receive_acts hi1 hrun1 input) hi1
    rcases receive_ways (c.flush input) input with hsame | hover | ⟨hstate, hsome, hfed, hupload⟩
    · rw [hsame, if_neg (not_not.mpr hrun1)]
      exact .inl ⟨hrun, hflush.trans (serve_served hi1 hrun1 hl1 input), fun _ => trivial⟩
    · rw [hover, if_pos (by simp [finish])]
      exact .inl ⟨hrun, hflush.trans (finish_served hi1 (by decide)), fun _ => trivial⟩
    · have hrun2 : ((c.flush input).receive input).session.result = .running := by
        rw [hfed]
        exact hrun1
      have hl2 : Listening ((c.flush input).receive input) := by
        refine ⟨?_, ?_⟩
        · rw [hfed]
          exact hl1.attached
        · rw [hfed]
          exact hl1.open_
      have htaken : c.taken input = input.read (min c.session.decoder.needed 256) := by
        rw [hdecoder] at hstate
        simp [taken, hclosing.symm.trans hopen, hstate]
      rw [if_neg (not_not.mpr hrun2)]
      rw [hdecoder] at hstate hsome hfed
      refine .inr ⟨hrun, hexpired, hclosing.symm.trans hopen, hstate, by rw [htaken]; exact hsome,
        c.flush input, (c.flush input).receive input, hflush, hdecoder, hopen, hrun1, ?_, hupload,
        serve_served hi2 hrun2 hl2 input⟩
      rw [htaken]
      exact hfed

/-- A poll keeps the session sound, parts from the service in order and keeps its clocks. -/
theorem poll_sound (hi : Inv c.config) (hsound : c.session.Sound) (input : PollInput) :
    (c.poll input).session.Sound ∧ Parted c (c.poll input) := by
  rcases poll_ways hi hsound input with ⟨_, hsame⟩ | ⟨_, hserved, _⟩ | ⟨_, hfed⟩
  · rw [hsame]
    exact ⟨hsound, .of_same rfl rfl⟩
  · exact ⟨hserved.sound hsound, hserved.parted⟩
  · obtain ⟨c1, c2, hfirst, _, hclosing, hrun1, hsession, hupload, hlast⟩ := hfed.stages
    have hsound2 : c2.session.Sound := by
      rw [hsession]
      exact ⟨(hfirst.sound hsound).released, fun h => absurd (h.symm.trans hclosing) (by decide)⟩
    have howner : c2.session.owner = c.session.owner := by
      rw [hsession]
      exact hfirst.clocked.owner
    have hattached : c2.session.has_upload = c.session.has_upload := by
      rw [hsession]
      exact hfirst.clocked.attached
    have hparted : Parted c c2 :=
      hfirst.parted.trans hfirst.clocked.owner hfirst.clocked.attached (.of_same (by rw [hsession]) hupload)
    exact ⟨hlast.sound hsound2, hparted.trans howner hattached hlast.parted⟩

theorem poll_kept (hi : Inv c.config) (hsound : c.session.Sound)
    (hrun : (c.poll input).session.result = .running) : Kept input c (c.poll input) := by
  rcases poll_ways hi hsound input with ⟨hne, hsame⟩ | ⟨_, hserved, hexpired⟩ | ⟨_, hfed⟩
  · rw [hsame] at hrun
    exact absurd hrun hne
  · exact hserved.kept (hexpired hrun) hrun
  · exact hfed.kept

end Ctx

end Firmingo
