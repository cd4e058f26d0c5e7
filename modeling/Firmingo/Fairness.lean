/-
Replies and backend output in turn.

A session that owns its channel has one output buffer for its replies and for the
stream's data, and one flag, `data_turn_`, that lets the data go first. This file
follows the flag through every poll of a tenure in which the transport takes all
that is offered and there is always data to send. A ready control frame never waits
for more than one serial frame; and a serial frame goes out between any two
responses, unless a frame without payload is read at once, after a dispatch that did
not set the flag.
-/
import Firmingo.Turns

set_option autoImplicit false

open Octets

namespace Firmingo

open Protocol Machine

/-! ## Traces of a tenure -/

/-- Between any two responses there is a serial frame. -/
def Alternates (marks : List Mark) : Prop :=
  Runs.Separated (· = .response) (· = .serial) marks

/-- At most one serial frame is queued between the moment a control frame is ready and
the next response. -/
def Prompt (marks : List Mark) : Prop :=
  ∀ pre mid post, marks = pre ++ .ready :: (mid ++ .response :: post) → .response ∉ mid →
    mid.count .serial ≤ 1

/-- There is a serial frame after the last response, and a response after the last
ready frame. -/
def Served (marks : List Mark) : Prop := Runs.Followed (· = .response) (· = .serial) marks
def Settled (marks : List Mark) : Prop := Runs.Followed (· = .ready) (· = .response) marks

/-- The frame that is still waiting, if there is one, has waited for at most one
serial frame. -/
def Waiting (marks : List Mark) : Prop :=
  ∀ pre mid, marks = pre ++ .ready :: mid → .response ∉ mid → mid.count .serial ≤ 1

variable {marks : List Mark}

theorem Alternates.concat (h : Alternates marks) {m : Mark} (hm : m = .response → Served marks) :
    Alternates (marks ++ [m]) :=
  Runs.Separated.concat h hm

theorem Prompt.concat (h : Prompt marks) {m : Mark} (hm : m = .response → Waiting marks) :
    Prompt (marks ++ [m]) := by
  intro pre mid post heq hnot
  rw [show pre ++ Mark.ready :: (mid ++ Mark.response :: post)
    = (pre ++ .ready :: mid) ++ .response :: post by simp] at heq
  rcases Runs.concat_eq_split heq with ⟨hl, hm', -⟩ | ⟨post', -, hl⟩
  · exact hm hm'.symm pre mid hl.symm hnot
  · exact h pre mid post' (by rw [hl]; simp) hnot

theorem served_serial (marks : List Mark) : Served (marks ++ [.serial]) :=
  Runs.followed_concat rfl (by decide)

theorem settled_response (marks : List Mark) : Settled (marks ++ [.response]) :=
  Runs.followed_concat rfl (by decide)

theorem Settled.serial (h : Settled marks) : Settled (marks ++ [.serial]) :=
  Runs.Followed.concat h (by decide)

theorem Served.ready (h : Served marks) : Served (marks ++ [.ready]) :=
  Runs.Followed.concat h (by decide)

/-- A frame that has just become ready has not waited. -/
theorem Settled.ready (h : Settled marks) : Waiting (marks ++ [.ready]) := by
  intro pre mid heq hnot
  rcases Runs.concat_eq_split heq with ⟨-, -, rfl⟩ | ⟨mid', rfl, hl⟩
  · decide
  · obtain ⟨z, hz, rfl⟩ := h pre _ mid' hl rfl
    exact absurd (List.mem_append_left _ hz) hnot

/-- A frame that data went before has waited for that one serial frame. -/
theorem Settled.ready_serial (h : Settled marks) : Waiting (marks ++ [.ready, .serial]) := by
  intro pre mid heq hnot
  rw [show marks ++ [Mark.ready, Mark.serial] = (marks ++ [.ready]) ++ [.serial] by simp] at heq
  rcases Runs.concat_eq_split heq with ⟨-, hm, -⟩ | ⟨mid', rfl, hl⟩
  · cases hm
  rcases Runs.concat_eq_split hl with ⟨-, -, rfl⟩ | ⟨mid'', rfl, hl'⟩
  · decide
  · obtain ⟨z, hz, rfl⟩ := h pre _ mid'' hl' rfl
    exact absurd (List.mem_append_left _ (List.mem_append_left _ hz)) hnot

variable {paced : Prop}

/-- What is shown of the marks of a tenure; responses and data alternate in one that is `paced`. -/
structure Fair (paced : Prop) (marks : List Mark) : Prop where
  alternates : paced → Alternates marks
  prompt : Prompt marks

/-- Every mark but a response may come at any time. -/
theorem Fair.concat (h : Fair paced marks) {m : Mark} (hm : m ≠ .response) : Fair paced (marks ++ [m]) :=
  ⟨fun hpaced => (h.alternates hpaced).concat fun hr => absurd hr hm,
    h.prompt.concat fun hr => absurd hr hm⟩

theorem Fair.response (h : Fair paced marks) (hserved : paced → Served marks) (hwaiting : Waiting marks) :
    Fair paced (marks ++ [.response]) :=
  ⟨fun hpaced => (h.alternates hpaced).concat fun _ => hserved hpaced, h.prompt.concat fun _ => hwaiting⟩

/-- The first response of a tenure. -/
theorem fair_response : Fair paced [.response] := by
  have hnil : Fair paced [] := by
    refine ⟨fun _ => Runs.separated_nil, ?_⟩
    intro pre mid post h
    simp at h
  refine hnil.response (fun _ => Runs.followed_nil) ?_
  intro pre mid h
  simp at h

namespace Ctx

variable {β υ : Type} {c c' : Ctx β υ} {input : PollInput}

/-! ## The invariant of a tenure -/

/-- A control frame is ready. -/
def Waits (s : Session) : Prop := s.decoder.state = .ready ∧ is_control s.decoder.type = true

/-- What holds between two polls of a tenure: a control frame waits only after data went
first; and in a tenure that is `paced`, there is no serial frame since the last response
only directly after it. -/
structure Turn (paced : Prop) (c : Ctx β υ) : Prop where
  closing : c.session.closing = false
  fair : Fair paced c.tenure
  served : paced → Served c.tenure ∨
    (c.session.decoder.bytes = [] ∧ c.session.decoder.state = .incomplete) ∧
      ∃ f : Frame, f.type = .response ∧ c.session.output = wire f
  waits : Waits c.session → c.session.data_turn = false ∧
    ∃ marks, Settled marks ∧ c.tenure = marks ++ [.ready, .serial]
  settled : ¬ Waits c.session → Settled c.tenure

/-- With a response in the output, an empty decoder and the flag not set, the next read
does not complete a frame: only one without payload would. -/
def Paced (s : Session) (input : PollInput) : Prop :=
  s.output.getD 5 0 = FrameType.response.code → s.decoder.bytes = [] → s.data_turn = false →
    (s.decoder.feed (input.read header_size)).state ≠ .ready

/-- The session ended without a mark. -/
def Ended (c c' : Ctx β υ) : Prop := c'.session.result ≠ .running ∧ c'.tenure = c.tenure

/-! What the frame stage starts from, and what a poll leaves. -/

/-- What the frame stage starts from. -/
structure Ready (paced : Prop) (c : Ctx β υ) : Prop where
  fair : Fair paced c.tenure
  first : Waits c.session → c.session.data_turn = true →
    ∃ marks, Settled marks ∧ c.tenure = marks ++ [.ready]
  second : Waits c.session → c.session.data_turn = false →
    (paced → Served c.tenure) ∧ Waiting c.tenure
  settled : ¬ Waits c.session → Settled c.tenure

/-- What a poll leaves. -/
structure After (paced : Prop) (c : Ctx β υ) : Prop where
  fair : Fair paced c.tenure
  turn : c.session.result = .running → c.session.owned = true → Turn paced c

theorem Ended.after (h : Ended c c') (hf : Fair paced c.tenure) : After paced c' :=
  ⟨by rw [h.2]; exact hf, fun hrun => absurd hrun h.1⟩

theorem not_waits_of_incomplete {s : Session} (h : s.decoder.state = .incomplete) : ¬ Waits s := by
  intro hw
  have hready := hw.1
  rw [h] at hready
  cases hready

/-- A session that has just replied. -/
structure Replying (paced : Prop) (c : Ctx β υ) : Prop where
  idle : c.session.decoder.bytes = [] ∧ c.session.decoder.state = .incomplete
  output : ∃ f : Frame, f.type = .response ∧ c.session.output = wire f
  settled : Settled c.tenure
  fair : Fair paced c.tenure
  closing : c.session.owned = true → c.session.closing = false

theorem Replying.after (h : Replying paced c) : After paced c :=
  ⟨h.fair, fun _ howned => ⟨h.closing howned, h.fair, fun _ => .inr ⟨h.idle, h.output⟩,
    fun hw => absurd hw (not_waits_of_incomplete h.idle.2), fun _ => h.settled⟩⟩

/-- The flag shows only while a control frame waits. -/
theorem After.data_turn (h : After paced c) (hw : ¬ Waits c.session) (turn : Bool) :
    After paced { c with session := { c.session with data_turn := turn } } :=
  ⟨h.fair, fun hrun howned =>
    have ht := h.turn hrun howned
    ⟨ht.closing, ht.fair, ht.served, fun h => absurd h hw, ht.settled⟩⟩

theorem unowned (hi : Inv c.config) (h : c.session.result ≠ .running) :
    c.session.owned = false := (hi.terminal h).1

variable [StreamBackend β]

/-- The transport takes all output, and there is data for the peer. -/
structure Flows (c : Ctx β υ) (input : PollInput) : Prop where
  accepts : ∀ output, input.write output = output.length
  supplied : Supplied c

/-- What the first two stages of a poll leave: the old frame or the one the read
completed, and an empty output if the transport takes everything. -/
structure Arrived (c : Ctx β υ) (input : PollInput) (c' : Ctx β υ) : Prop where
  owner : c'.session.owner = c.session.owner
  result : c'.session.result = c.session.result
  owned : c'.session.owned = c.session.owned
  data_turn : c'.session.data_turn = c.session.data_turn
  closing : c'.session.closing = c.session.closing
  output : (∀ output, input.write output = output.length) → c'.session.output = []
  supplied : Supplied c → Supplied c'
  decoder : c'.session.decoder = c.session.decoder ∧ c'.tenure = c.tenure ∨
    c.session.decoder.state = .incomplete ∧
      c'.session.decoder
        = c.session.decoder.feed (input.read (min c.session.decoder.needed 256)) ∧
      (Waits c'.session → c'.tenure = c.tenure ++ [.ready]) ∧
      (¬ Waits c'.session → c'.tenure = c.tenure)

/-- A decoder that has just been reset completes only a frame without payload in one
read, and `Paced` has excluded that. -/
theorem Turn.ready (ht : Turn paced c)
    (hp : paced → Paced c.session input) (ha : Arrived c input c') : Ready paced c' := by
  rcases ha.decoder with ⟨hd, htenure⟩ | ⟨hinc, hd, hwaits, hnot⟩
  · -- the frame, if there is one, waited before
    have hw : Waits c'.session ↔ Waits c.session := by rw [Waits, Waits, hd]
    refine ⟨by rw [htenure]; exact ht.fair, ?_, ?_, ?_⟩
    · intro hwait hturn
      rw [ha.data_turn, (ht.waits (hw.mp hwait)).1] at hturn
      cases hturn
    · intro hwait _
      obtain ⟨-, marks, hsettled, heq⟩ := ht.waits (hw.mp hwait)
      rw [htenure, heq]
      refine ⟨fun _ => ?_, hsettled.ready_serial⟩
      rw [show marks ++ [Mark.ready, Mark.serial] = (marks ++ [.ready]) ++ [.serial] by simp]
      exact served_serial _
    · intro hn
      rw [htenure]
      exact ht.settled (fun h => hn (hw.mpr h))
  · have hsettled : Settled c.tenure :=
      ht.settled fun hw => by
        have hready := hw.1
        rw [hinc] at hready
        cases hready
    by_cases hw : Waits c'.session
    · have htenure := hwaits hw
      refine ⟨?_, ?_, ?_, fun hn => absurd hw hn⟩
      · rw [htenure]
        exact ht.fair.concat (by decide)
      · exact fun _ _ => ⟨_, hsettled, htenure⟩
      · intro _ hturn
        rw [htenure]
        refine ⟨fun hpaced => ?_, hsettled.ready⟩
        rcases ht.served hpaced with hs | ⟨⟨hbytes, -⟩, f, hf, hout⟩
        · exact hs.ready
        · exfalso
          have hcode : c.session.output.getD 5 0 = FrameType.response.code := by
            rw [hout, ← hf]
            rfl
          have hneeded : min c.session.decoder.needed 256 = header_size := by
            simp [Decoder.needed, hinc, hbytes, header_size]
          refine hp hpaced hcode hbytes (by rw [← ha.data_turn]; exact hturn) ?_
          rw [← hneeded, ← hd]
          exact hw.1
    · have htenure := hnot hw
      exact ⟨by rw [htenure]; exact ht.fair, fun h => absurd h hw, fun h => absurd h hw,
        fun _ => by rw [htenure]; exact hsettled⟩

/-! ## Output and input -/

variable [UploadService υ]

theorem ended_finish (c : Ctx β υ) {result : SessionResult} (h : result ≠ .running) :
    Ended c (c.finish result) := ⟨h, finish_tenure c result⟩

/-- The first stage of a poll writes the output, all of it if the transport takes it. -/
theorem flush_arrived (c : Ctx β υ) (input : PollInput) :
    Ended c (c.flush input) ∨ Arrived c input (c.flush input) ∧
      (c.flush input).session.decoder = c.session.decoder ∧ (c.flush input).tenure = c.tenure := by
  unfold flush
  split
  · rename_i hnil
    exact .inr ⟨⟨rfl, rfl, rfl, rfl, rfl, fun _ => hnil, id, .inl ⟨rfl, rfl⟩⟩, rfl, rfl⟩
  simp only
  split
  · exact .inl (ended_finish c (by decide))
  · refine .inr ?_
    have htenure : ({ c with session := { c.session with
        output := c.session.output.drop (input.write c.session.output)
        progress_at := if input.write c.session.output ≠ 0 then input.now
          else c.session.progress_at } }.record
        (.sent c.session.owner (c.session.output.take (input.write c.session.output)))).tenure
          = c.tenure :=
      tenure_unmarked _ _ (by simp [unmarked])
    refine ⟨⟨rfl, rfl, rfl, rfl, rfl, fun ha => ?_, id, .inl ⟨rfl, htenure⟩⟩, rfl, htenure⟩
    change c.session.output.drop (input.write c.session.output) = []
    rw [ha, List.drop_length]

/-- The second stage completes a frame, or leaves what there was. -/
theorem receive_arrived {c1 : Ctx β υ} (h : Arrived c input c1)
    (hd : c1.session.decoder = c.session.decoder) (ht : c1.tenure = c.tenure) :
    Ended c1 (c1.receive input) ∨ Arrived c input (c1.receive input) := by
  unfold receive
  split
  · exact .inr h
  rename_i hinc
  rw [not_not] at hinc
  simp only
  split
  · exact .inl (ended_finish c1 (by decide))
  split
  · exact .inr h
  refine .inr ?_
  rw [hd] at hinc ⊢
  generalize hfed : c.session.decoder.feed (input.read (min c.session.decoder.needed 256)) = fed
  split
  · rename_i hready
    refine ⟨h.owner, h.result, h.owned, h.data_turn, h.closing, h.output, h.supplied,
      .inr ⟨hinc, hfed.symm, fun hw => ?_, fun hw => ?_⟩⟩
    · have hcontrol : is_control fed.type = true := hw.2
      rw [← ht]
      refine (tenure_received c1.session.owner c1.channel.history fed.frame).trans ?_
      rw [show fed.frame.type = fed.type from rfl, if_pos hcontrol]
      rfl
    · have hcontrol : ¬ is_control fed.type = true := fun hc => hw ⟨hready, hc⟩
      rw [← ht]
      refine (tenure_received c1.session.owner c1.channel.history fed.frame).trans ?_
      rw [show fed.frame.type = fed.type from rfl, if_neg hcontrol, List.append_nil]
      rfl
  · rename_i hready
    exact ⟨h.owner, h.result, h.owned, h.data_turn, h.closing, h.output, h.supplied,
      .inr ⟨hinc, hfed.symm, fun hw => absurd hw.1 hready, fun _ => ht⟩⟩

/-! ## The frame stage -/

/-- A pump while no control frame waits. -/
theorem pump_after (h : Alive c) (hr : Ready paced c) (hidle : c.session.output = [])
    (hs : Supplied c) (hclosing : c.session.closing = false) (hw : ¬ Waits c.session)
    (now : UInt32) : After paced (c.pump now) := by
  rcases pump_sent h now with ⟨hend, -, htenure⟩ | hsent
  · exact Ended.after ⟨hend, htenure⟩ hr.fair
  obtain ⟨htenure, -⟩ := hsent.free hidle hs
  have hw' : ¬ Waits (c.pump now).session := by
    rcases hsent.decoder with hd | ⟨-, hd⟩
    · rw [Waits, hd]
      exact hw
    · exact not_waits_of_incomplete (by rw [hd]; rfl)
  have hserved : Served (c.pump now).tenure := by rw [htenure]; exact served_serial _
  have hfair : Fair paced (c.pump now).tenure := by
    rw [htenure]
    exact hr.fair.concat (by decide)
  refine ⟨hfair, fun _ _ => ⟨hsent.closing.trans hclosing, hfair, fun _ => .inl hserved,
    fun h => absurd h hw', fun _ => ?_⟩⟩
  rw [htenure]
  exact (hr.settled hw).serial

/-- Data goes first: the frame waits for the next poll. -/
theorem data_first_after (h : Alive c) (hr : Ready paced c) (hidle : c.session.output = [])
    (hs : Supplied c) (hclosing : c.session.closing = false) (hw : Waits c.session)
    (hturn : c.session.data_turn = true) (now : UInt32) :
    Ended c (c.pump now) ∨ (c.pump now).session.result = .running ∧
      (c.pump now).session.output ≠ [] ∧
      After paced { c.pump now with session := { (c.pump now).session with data_turn := false } } := by
  rcases pump_sent h now with ⟨hend, -, htenure⟩ | hsent
  · exact .inl ⟨hend, htenure⟩
  obtain ⟨htenure, hout⟩ := hsent.free hidle hs
  obtain ⟨marks, hsettled, heq⟩ := hr.first hw hturn
  have hdecoder : (c.pump now).session.decoder = c.session.decoder := by
    rcases hsent.decoder with hd | ⟨⟨-, hserial⟩, -⟩
    · exact hd
    · have hcontrol := hw.2
      rw [hserial] at hcontrol
      cases hcontrol
  have hw' : Waits (c.pump now).session := by
    rw [Waits, hdecoder]
    exact hw
  have hfair : Fair paced (c.pump now).tenure := by
    rw [htenure]
    exact hr.fair.concat (by decide)
  refine .inr ⟨hsent.result.trans h.running, hout, hfair, fun _ _ =>
    ⟨hsent.closing.trans hclosing, hfair, fun _ => .inl ?_, fun _ => ⟨rfl, marks, hsettled, ?_⟩,
      fun hn => absurd hw' hn⟩⟩
  · change Served (c.pump now).tenure
    rw [htenure]
    exact served_serial _
  · change (c.pump now).tenure = _
    rw [htenure, heq]
    simp

/-- The pump after a reply finds the output taken. -/
theorem Replying.pump (h : Replying paced c) (ha : Alive c) (now : UInt32) :
    After paced (c.pump now) ∧ (c.pump now).tenure = c.tenure := by
  rcases pump_sent ha now with ⟨hend, -, htenure⟩ | hsent
  · exact ⟨Ended.after ⟨hend, htenure⟩ h.fair, htenure⟩
  obtain ⟨f, hf, hout⟩ := h.output
  obtain ⟨htenure, hsame⟩ := hsent.busy (by rw [hout]; exact wire_ne_nil f)
  have hdecoder : (c.pump now).session.decoder = c.session.decoder := by
    rcases hsent.decoder with hd | ⟨⟨hready, -⟩, -⟩
    · exact hd
    · rw [h.idle.2] at hready
      cases hready
  have hr : Replying paced (c.pump now) :=
    ⟨by rw [hdecoder]; exact h.idle, ⟨f, hf, hsame.trans hout⟩, by rw [htenure]; exact h.settled,
      by rw [htenure]; exact h.fair, fun _ => hsent.closing.trans (h.closing ha.owned)⟩
  exact ⟨hr.after, htenure⟩

/-- The reply itself. -/
theorem dispatch_replying (h : Alive c) (hr : Ready paced c) (hw : Waits c.session)
    (hturn : c.session.data_turn = false) (hclosing : c.session.closing = false) (now : UInt32)
    (memory : Option MemorySamples) :
    Ended c (c.dispatch now memory) ∨ Replying paced (c.dispatch now memory) ∧
      (c.dispatch now memory).tenure = c.tenure ++ [.response] := by
  have hd := dispatch_dispatched h.running h.inv.token hw.2 now memory
  by_cases hrun : (c.dispatch now memory).session.result = .running
  swap
  · exact .inl ⟨hrun, hd.ended hrun h.owned⟩
  obtain ⟨hout, htenure, -⟩ := hd.replied hrun
  have htenure := htenure h.owned
  obtain ⟨hserved, hwaiting⟩ := hr.second hw hturn
  refine .inr ⟨⟨hd.idle, hout, ?_, ?_, fun ho => (hd.closing ho).trans hclosing⟩, htenure⟩
  · rw [htenure]
    exact settled_response _
  · rw [htenure]
    exact hr.fair.response hserved hwaiting

/-- The rest of the frame stage, after the frame was handled without a pump. -/
def then_pump (c : Ctx β υ) (now : UInt32) : Ctx β υ :=
  if c.session.result = .running && c.session.owned then c.pump now else c

theorem Ended.then_pump (h : Ended c c') (now : UInt32) : c'.then_pump now = c' := by
  unfold Ctx.then_pump
  rw [if_neg (by simp [h.1])]

theorem Alive.then_pump (h : Alive c) (now : UInt32) : c.then_pump now = c.pump now := by
  unfold Ctx.then_pump
  rw [if_pos (by simp [h.running, h.owned])]

/-- Out of the channel the rest of the frame stage does nothing. -/
theorem then_pump_unowned (h : c.session.owned = false) (now : UInt32) : c.then_pump now = c := by
  unfold Ctx.then_pump
  rw [if_neg (by simp [h])]

/-- The frame stage where data has no turn: a frame is handled unless its reply has no room. -/
theorem serve_ready (hready : c.session.decoder.state = .ready)
    (hturn : c.session.decoder.type = .serial ∨ c.session.owned = false ∨ c.session.data_turn = false)
    (input : PollInput) :
    c.serve input = (if c.session.decoder.type = .serial ∨ c.session.output = []
      then c.dispatch input.now input.memory else c).then_pump input.now := by
  have hhandle : c.handle input = (false, if c.session.decoder.type = .serial ∨ c.session.output = []
      then c.dispatch input.now input.memory else c) := by
    unfold handle
    by_cases hserial : c.session.decoder.type = .serial
    · rw [if_pos hserial, if_pos (.inl hserial)]
    · rcases hturn.resolve_left hserial with h | h <;> simp [hserial, h]
  unfold serve
  simp only [hready, hhandle, ne_eq, reduceCtorEq, not_false_eq_true, decide_true, not_true_eq_false,
    decide_false, Bool.and_false, Bool.false_eq_true, if_false, if_true, Bool.not_false, Bool.and_true]
  rfl

/-- The frame stage where data goes first, and finds room. -/
theorem serve_data_first (h : Alive c) (hidle : c.session.output = [])
    (hready : c.session.decoder.state = .ready) (hne : c.session.decoder.type ≠ .serial)
    (hturn : c.session.data_turn = true) (input : PollInput)
    (hout : (c.pump input.now).session.result = .running → (c.pump input.now).session.output ≠ []) :
    c.serve input = if (c.pump input.now).session.result ≠ .running then c.pump input.now
      else { c.pump input.now with session := { (c.pump input.now).session with data_turn := false } } := by
  unfold serve handle
  simp only [hready, hne, hturn, hidle, h.owned, ne_eq, reduceCtorEq, not_false_eq_true, decide_true,
    not_true_eq_false, decide_false, Bool.and_false, Bool.and_true, Bool.true_and, Bool.false_eq_true,
    if_false, if_true, decide_eq_true_eq]
  split
  · simp
  · next hrun =>
    rw [not_not] at hrun
    simp [hout hrun]

/-- A control frame is served: data first, or its reply. -/
theorem serve_control (h : Alive c) (hr : Ready paced c) (hidle : c.session.output = []) (hs : Supplied c)
    (hclosing : c.session.closing = false) (hw : Waits c.session) (input : PollInput) :
    After paced (c.serve input) ∧ (c.session.data_turn = false →
      (c.serve input).session.result ≠ .running ∨ (c.serve input).tenure = c.tenure ++ [.response]) := by
  have hne : c.session.decoder.type ≠ .serial := by
    intro ht
    have hcontrol := hw.2
    rw [ht] at hcontrol
    cases hcontrol
  cases hturn : c.session.data_turn with
  | true =>
    refine ⟨?_, fun hno => by cases hno⟩
    rcases data_first_after h hr hidle hs hclosing hw hturn input.now with hend | ⟨hrun, hout, hafter⟩
    · rw [serve_data_first h hidle hw.1 hne hturn input (fun hrun => absurd hrun hend.1), if_pos hend.1]
      exact hend.after hr.fair
    · rw [serve_data_first h hidle hw.1 hne hturn input (fun _ => hout), if_neg (not_not.mpr hrun)]
      exact hafter
  | false =>
    rw [serve_ready hw.1 (.inr (.inr hturn)), if_pos (.inr hidle)]
    have hacts := dispatch_acts h.inv h.running hw.1 (fun _ => hidle) input.now input.memory
    rcases dispatch_replying h hr hw hturn hclosing input.now input.memory with
      hend | ⟨hreply, htenure⟩
    · rw [hend.then_pump]
      exact ⟨hend.after hr.fair, fun _ => .inl hend.1⟩
    by_cases hrun : (c.dispatch input.now input.memory).session.result = .running ∧
      (c.dispatch input.now input.memory).session.owned = true
    · have halive : Alive (c.dispatch input.now input.memory) :=
        ⟨Acts.inv hacts h.inv, hrun.1, hrun.2⟩
      obtain ⟨hafter, hsame⟩ := hreply.pump halive input.now
      rw [halive.then_pump]
      exact ⟨hafter, fun _ => .inr (hsame.trans htenure)⟩
    · have hno : (c.dispatch input.now input.memory).then_pump input.now
          = c.dispatch input.now input.memory := by
        unfold Ctx.then_pump
        rw [if_neg (by simpa using hrun)]
      rw [hno]
      exact ⟨hreply.after, fun _ => .inr htenure⟩

/-- The frame stage without a control frame: serial data is pumped, and a frame that only the
device may send ends the session, at the latest after the data. -/
theorem serve_other (h : Alive c) (hr : Ready paced c) (hidle : c.session.output = [])
    (hs : Supplied c) (hclosing : c.session.closing = false) (hw : ¬ Waits c.session)
    (input : PollInput) : After paced (c.serve input) := by
  have hpump := pump_after h hr hidle hs hclosing hw input.now
  by_cases hready : c.session.decoder.state = .ready
  swap
  · unfold serve
    split
    · exact (ended_finish c (by decide)).after hr.fair
    · simp only [Bool.not_false, Bool.and_true]
      change After paced (c.then_pump input.now)
      rw [h.then_pump]
      exact hpump
  by_cases hfirst : c.session.decoder.type = .serial ∨ c.session.data_turn = false
  · rw [serve_ready hready (hfirst.imp_right .inr), if_pos (.inr hidle)]
    have hcontrol : ¬ is_control c.session.decoder.type = true := fun hc => hw ⟨hready, hc⟩
    rcases dispatch_other input.now input.memory (by simpa [is_control] using hcontrol) with
      hsame | ⟨result, hne, hend⟩
    · rw [hsame, h.then_pump]
      exact hpump
    · rw [hend, (ended_finish c hne).then_pump]
      exact (ended_finish c hne).after hr.fair
  · rw [not_or, Bool.not_eq_false] at hfirst
    rcases pump_sent h input.now with ⟨hend, -, -⟩ | hsent
    · rw [serve_data_first h hidle hready hfirst.1 hfirst.2 input (fun hrun => absurd hrun hend), if_pos hend]
      exact hpump
    · have hw' : ¬ Waits (c.pump input.now).session := by
        rcases hsent.decoder with hd | ⟨⟨-, hserial⟩, -⟩
        · rw [Waits, hd]
          exact hw
        · exact absurd hserial hfirst.1
      rw [serve_data_first h hidle hready hfirst.1 hfirst.2 input (fun _ => (hsent.free hidle hs).2),
        if_neg (not_not.mpr (hsent.result.trans h.running))]
      exact hpump.data_turn hw' false

/-! ## One poll -/

/-- A poll ends the session, or waits for its last output, or serves what has arrived. -/
theorem poll_arrives (hi : Inv c.config) (hrun : c.session.result = .running) (input : PollInput) :
    Ended c (c.poll input) ∨
    (c.session.closing = true ∧ (c.poll input).session.owned = c.session.owned) ∨
    c.session.closing = false ∧
      ∃ c', Arrived c input c' ∧ Inv c'.config ∧ c.poll input = c'.serve input := by
  unfold poll
  rw [if_neg (not_not.mpr hrun)]
  split
  · exact .inl (ended_finish c (by decide))
  split
  · next hexp => exact .inl (ended_finish c (expired_ne_running hexp))
  simp only
  have hi₁ := Acts.inv (flush_acts hi hrun input) hi
  rcases flush_arrived c input with hend | ⟨ha, hd, htenure⟩
  · rw [if_pos hend.1]
    exact .inl hend
  have hrun₁ : (c.flush input).session.result = .running := ha.result.trans hrun
  rw [if_neg (not_not.mpr hrun₁), ha.closing]
  split
  · next hclosing =>
    split
    · exact .inr (.inl ⟨hclosing, ha.owned⟩)
    · exact .inl ⟨SessionResult.noConfusion, (finish_tenure _ _).trans htenure⟩
  next hclosing =>
  rcases receive_arrived ha hd htenure with hend | ha₂
  · rw [if_pos hend.1]
    exact .inl ⟨hend.1, hend.2.trans htenure⟩
  · rw [if_neg (not_not.mpr (ha₂.result.trans hrun))]
    exact .inr (.inr ⟨by simpa using hclosing, _, ha₂, Acts.inv (receive_acts hi₁ hrun₁ input) hi₁, rfl⟩)

/-- **One poll of a tenure** keeps the invariant, and answers the control frame that was
waiting. -/
theorem poll_after (h : Alive c) (ht : Turn paced c)
    (hf : Flows c input) (hp : paced → Paced c.session input) :
    After paced (c.poll input) ∧ (Waits c.session →
      (c.poll input).session.result ≠ .running ∨ (c.poll input).tenure = c.tenure ++ [.response]) := by
  rcases poll_arrives h.inv h.running input with hend | ⟨hclosing, -⟩ | ⟨-, c', ha, hi, hserve⟩
  · exact ⟨hend.after ht.fair, fun _ => .inl hend.1⟩
  · rw [ht.closing] at hclosing
    cases hclosing
  rw [hserve]
  have halive : Alive c' := ⟨hi, ha.result.trans h.running, ha.owned.trans h.owned⟩
  have hready := ht.ready hp ha
  have hidle := ha.output hf.accepts
  have hsupplied := ha.supplied hf.supplied
  have hclosing := ha.closing.trans ht.closing
  by_cases hw : Waits c'.session
  · obtain ⟨hafter, hreply⟩ := serve_control halive hready hidle hsupplied hclosing hw input
    refine ⟨hafter, fun hwait => ?_⟩
    -- a frame that waited is still there, and data has gone first
    have hturn := (ht.waits hwait).1
    rcases ha.decoder with ⟨-, hsame⟩ | ⟨hinc, -⟩
    · rw [← hsame]
      exact hreply (ha.data_turn.trans hturn)
    · exact absurd hwait (not_waits_of_incomplete hinc)
  · refine ⟨serve_other halive hready hidle hsupplied hclosing hw input, fun hwait => ?_⟩
    rcases ha.decoder with ⟨hsame, -⟩ | ⟨hinc, -⟩
    · exact absurd (by rw [Waits, hsame]; exact hwait) hw
    · exact absurd hwait (not_waits_of_incomplete hinc)

/-! ## The first poll of a tenure -/

/-- The frame stage of a session that does not own the channel: it may open it. -/
theorem serve_opens (hi : Inv c.config) (hrun : c.session.result = .running)
    (hnot : c.session.owned = false) (hclosing : c.session.closing = false) (input : PollInput)
    (howned : (c.serve input).session.owned = true) : After paced (c.serve input) := by
  by_cases hready : c.session.decoder.state = .ready
  swap
  · unfold serve at howned
    split at howned
    · cases howned
    · simp [hnot] at howned
  rw [serve_ready hready (.inr (.inl hnot))] at howned ⊢
  split at howned
  swap
  · rw [then_pump_unowned hnot, hnot] at howned
    cases howned
  next hroom =>
  rw [if_pos hroom]
  by_cases hcontrol : is_control c.session.decoder.type = true
  swap
  · -- the frame changes nothing, or the session has ended
    rcases dispatch_other input.now input.memory (by simpa [is_control] using hcontrol) with
      hsame | ⟨result, hne, hend⟩
    · rw [hsame, then_pump_unowned hnot, hnot] at howned
      cases howned
    · rw [hend, (ended_finish c hne).then_pump] at howned
      cases howned
  have hidle : c.session.output = [] := by
    refine hroom.resolve_left fun hserial => ?_
    rw [hserial] at hcontrol
    cases hcontrol
  have hd := dispatch_dispatched hrun hi.token hcontrol input.now input.memory
  have hacts := dispatch_acts hi hrun hready (fun _ => hidle) input.now input.memory
  have hi' := Acts.inv hacts hi
  have halive : (c.dispatch input.now input.memory).session.result = .running ∧
      (c.dispatch input.now input.memory).session.owned = true := by
    by_cases hrun' : (c.dispatch input.now input.memory).session.result = .running
    · by_cases ho : (c.dispatch input.now input.memory).session.owned = true
      · exact ⟨hrun', ho⟩
      · rw [Ctx.then_pump, if_neg (by simp [ho])] at howned
        exact absurd howned ho
    · rw [Ctx.then_pump, if_neg (by simp [hrun'])] at howned
      rw [unowned hi' hrun'] at howned
      cases howned
  obtain ⟨hout, -, hopened⟩ := hd.replied halive.1
  have htenure := hopened hnot halive.2
  have hreply : Replying paced (c.dispatch input.now input.memory) :=
    ⟨hd.idle, hout, by rw [htenure]; exact settled_response [], by rw [htenure]; exact fair_response,
      fun ho => (hd.closing ho).trans hclosing⟩
  have ha : Alive (c.dispatch input.now input.memory) := ⟨hi', halive.1, halive.2⟩
  rw [ha.then_pump]
  exact (hreply.pump ha input.now).1

/-- The poll that opens the channel starts a tenure with its own reply. -/
theorem poll_opens (hi : Inv c.config) (hrun : c.session.result = .running)
    (hnot : c.session.owned = false) (input : PollInput)
    (howned : (c.poll input).session.owned = true) : After paced (c.poll input) := by
  rcases poll_arrives hi hrun input with hend | ⟨-, hsame⟩ | ⟨hclosing, c', ha, hi', hserve⟩
  · rw [unowned (Acts.inv (poll_acts hi input) hi) hend.1] at howned
    cases howned
  · rw [hsame, hnot] at howned
    cases howned
  · rw [hserve] at howned ⊢
    exact serve_opens hi' (ha.result.trans hrun) (ha.owned.trans hnot) (ha.closing.trans hclosing) input howned

end Ctx

/-! ## Whole runs -/

open Ctx

variable {β υ : Type} {t : UInt32} {c c' : Ctx β υ} {sys sys' : System β υ} {input : PollInput}

/-- Session `t` runs and owns the channel. -/
def System.Owns (sys : System β υ) (t : UInt32) : Prop :=
  ∃ s, sys.sessions t = some s ∧ s.result = .running ∧ s.owned = true

/-- What is true of session `t` while it owns the channel. -/
def Turns (paced : Prop) (t : UInt32) (sys : System β υ) : Prop :=
  ∀ s, sys.sessions t = some s → s.result = .running → s.owned = true → Turn paced (sys.ctx s)

theorem tenure_foreign {u : UInt32} (hne : u ≠ t) (history : List Event) {more : List Event}
    (hn : ∀ e ∈ more, by_token t e = true) (hs : ∀ e ∈ more, sessional e = true) :
    tenure u (history ++ more) = tenure u history := by
  refine Runs.since_quiet _ _ _ _ fun e he => ?_
  have hn := hn e he
  have hs := hs e he
  cases e <;> simp_all [by_token, sessional, is_opened, mark, hne.symm]

/-- The invariant is about the session and its marks only. -/
theorem Ctx.Turn.congr (h : Turn paced c)
    (hs : c'.session = c.session) (ht : c'.tenure = c.tenure) : Turn paced c' := by
  refine ⟨by rw [hs]; exact h.closing, by rw [ht]; exact h.fair, ?_, ?_, ?_⟩
  · rw [hs, ht]
    exact h.served
  · rw [hs, ht]
    exact h.waits
  · rw [hs, ht]
    exact h.settled

/-- What another session's method does to the owner: nothing it could tell. -/
theorem on_foreign (hok : System.Ok sys) {v : UInt32} (hne : t ≠ v)
    {m : Ctx β υ → Ctx β υ} (hm : ∀ {c : Ctx β υ}, Inv c.config → Acts c.config (m c).config) :
    (sys.on v m).sessions t = sys.sessions t ∧
      ∀ s, sys.sessions t = some s → s.owned = true →
        tenure t (sys.on v m).channel.history = tenure t sys.channel.history := by
  unfold System.on
  split
  · exact ⟨rfl, fun _ _ _ => rfl⟩
  rename_i s' hs'
  refine ⟨Function.update_of_ne hne .., fun s hs howned => ?_⟩
  have hi := hok.inv hs'
  obtain ⟨more, hseen⟩ := Acts.seen (hm (c := sys.ctx s') hi) hi
  have htoken : s'.owner = v := hok.token hs'
  have howner : sys.channel.stream.owner = s.owner := (hok.inv hs).owned_iff.mp howned
  have hst : s.owner = t := hok.token hs
  obtain ⟨heq, hsess⟩ := hseen.foreign
    (by
      change sys.channel.stream.owner ≠ 0
      rw [howner]
      exact (hok.inv hs).token)
    (by
      change sys.channel.stream.owner ≠ s'.owner
      rw [howner, hst, htoken]
      exact hne)
  have hh : (m (sys.ctx s')).channel.history = sys.channel.history ++ more :=
    congrArg Shared.history heq
  change tenure t (m (sys.ctx s')).channel.history = _
  rw [hh]
  refine tenure_foreign hne _ (fun e he => ?_) hsess
  have := hseen.named e he
  rwa [show (sys.ctx s').config.party.token = v from htoken] at this

/-- One operation, as the session sees it that may own the channel. -/
structure Stepped (paced : Prop) (t : UInt32) (sys sys' : System β υ) : Prop where
  turns : Turns paced t sys'
  fair : sys.Owns t → Fair paced (tenure t sys'.channel.history)

/-- An operation that leaves the session alone. -/
theorem stepped_of_same (hok : System.Ok sys)
    (h : Turns paced t sys) (hsame : sys'.sessions t = sys.sessions t)
    (htenure : ∀ s, sys.sessions t = some s → s.owned = true →
      tenure t sys'.channel.history = tenure t sys.channel.history) : Stepped paced t sys sys' := by
  have hctx : ∀ s, sys.sessions t = some s → (sys.ctx s).tenure = tenure t sys.channel.history := by
    intro s hs
    rw [← hok.token hs]
    rfl
  refine ⟨fun s hs hrun howned => ?_, fun ⟨s, hs, hrun, howned⟩ => ?_⟩
  · rw [hsame] at hs
    refine (h s hs hrun howned).congr rfl ?_
    change tenure s.owner sys'.channel.history = tenure s.owner sys.channel.history
    rw [hok.token hs]
    exact htenure s hs howned
  · rw [htenure s hs howned, ← hctx s hs]
    exact (h s hs hrun howned).fair

/-- The session's own method, when what it leaves is known. -/
theorem stepped_of_after (hok : System.Ok sys)
    {s : Session} (hs : sys.sessions t = some s) {m : Ctx β υ → Ctx β υ}
    (howner : (m (sys.ctx s)).session.owner = s.owner)
    (hturn : (m (sys.ctx s)).session.result = .running → (m (sys.ctx s)).session.owned = true →
      Turn paced (m (sys.ctx s)))
    (hafter : s.result = .running → s.owned = true → Fair paced (m (sys.ctx s)).tenure) :
    Stepped paced t sys (sys.on t m) := by
  have hon : sys.on t m = sys.put t (m (sys.ctx s)) := by
    unfold System.on
    rw [hs]
  have htenure : (m (sys.ctx s)).tenure = tenure t (m (sys.ctx s)).channel.history := by
    rw [Ctx.tenure, howner, hok.token hs]
  rw [hon]
  refine ⟨fun v hv hrun howned => ?_, ?_⟩
  · have hv' : v = (m (sys.ctx s)).session := by
      rcases System.update_eq_some hv with ⟨-, rfl⟩ | ⟨hne, -⟩
      · rfl
      · exact absurd rfl hne
    subst hv'
    exact hturn hrun howned
  · rintro ⟨v, hv, hrun, howned⟩
    rw [hs, Option.some.injEq] at hv
    subst hv
    change Fair paced (tenure t (m (sys.ctx s)).channel.history)
    rw [← htenure]
    exact hafter hrun howned

variable [StreamBackend β] [UploadService υ]

/-- In the polls session `t` makes as the owner, the transport takes everything and
there is data for the peer. -/
def Flowing (t : UInt32) (sys : System β υ) (o : Op β υ) : Prop :=
  ∀ s input, o = .poll t input → sys.sessions t = some s → s.owned = true →
    Flows (sys.ctx s) input

/-- In those polls no frame without payload is read at once while the flag is not set. -/
def Pacing (t : UInt32) (sys : System β υ) (o : Op β υ) : Prop :=
  ∀ s input, o = .poll t input → sys.sessions t = some s → s.owned = true → Paced s input

/-- A session's own poll. -/
theorem poll_stepped (hok : System.Ok sys) (h : Turns paced t sys) (hflow : Flowing t sys (.poll t input))
    (hpace : paced → Pacing t sys (.poll t input)) : Stepped paced t sys (sys.on t (·.poll input)) := by
  cases hs : sys.sessions t with
  | none =>
    have hon : sys.on t (·.poll input) = sys := by
      unfold System.on
      rw [hs]
    rw [hon]
    exact stepped_of_same hok h rfl fun _ _ _ => rfl
  | some s =>
    have hi := hok.inv hs
    have howner : ((sys.ctx s).poll input).session.owner = s.owner :=
      Acts.token_eq (poll_acts (c := sys.ctx s) hi input)
    by_cases hrun : s.result = .running
    swap
    · -- a session that has ended does nothing
      have hpoll : (sys.ctx s).poll input = sys.ctx s := if_pos hrun
      refine stepped_of_after hok hs howner (fun hrun' _ => ?_) (fun hrun' => absurd hrun' hrun)
      simp only [hpoll] at hrun'
      exact absurd hrun' hrun
    by_cases howned : s.owned = true
    · have halive : Alive (sys.ctx s) := ⟨hi, hrun, howned⟩
      have hafter := (poll_after halive (h s hs hrun howned) (hflow s input rfl hs howned)
        (fun hpaced => hpace hpaced s input rfl hs howned)).1
      exact stepped_of_after hok hs howner hafter.turn fun _ _ => hafter.fair
    · refine stepped_of_after hok hs howner (fun hrun' howned' => ?_)
        (fun _ howned' => absurd howned' howned)
      have hnot : (sys.ctx s).session.owned = false := by
        change s.owned = false
        simpa using howned
      exact (poll_opens (c := sys.ctx s) hi hrun hnot input howned').turn hrun' howned'

/-- `close` ends a tenure and leaves no mark. -/
theorem close_stepped (hok : System.Ok sys)
    (h : Turns paced t sys) : Stepped paced t sys (sys.on t Ctx.close) := by
  cases hs : sys.sessions t with
  | none =>
    have hon : sys.on t Ctx.close = sys := by
      unfold System.on
      rw [hs]
    rw [hon]
    exact stepped_of_same hok h rfl fun _ _ _ => rfl
  | some s =>
    have htenure : (sys.ctx s).close.tenure = (sys.ctx s).tenure := let_go_tenure (sys.ctx s)
    refine stepped_of_after hok hs rfl (fun _ howned => by cases howned) fun hrun howned => ?_
    rw [htenure]
    exact (h s hs hrun howned).fair

/-- **Every operation keeps the turns.** -/
theorem step_stepped (hok : System.Ok sys) (h : Turns paced t sys) {o : Op β υ} (hflow : Flowing t sys o)
    (hpace : paced → Pacing t sys o) : Stepped paced t sys (sys.step o) := by
  cases o with
  | construct v now identity has_upload =>
    simp only [System.step]
    split
    · exact stepped_of_same hok h rfl fun _ _ _ => rfl
    rename_i hnew
    have htenure : tenure t (sys.channel.record (.created v)).history
        = tenure t sys.channel.history := tenure_unmarked _ _ (by simp [unmarked])
    by_cases hv : t = v
    · subst hv
      have hnone : sys.sessions t = none := by
        simp only [Bool.or_eq_true, not_or, Bool.not_eq_true, Option.isSome_eq_false_iff,
          Option.isNone_iff_eq_none] at hnew
        exact hnew.2
      -- the new session owns nothing, and there was no session `t` before
      refine ⟨?_, ?_⟩
      · intro s hs hrun howned
        rcases System.update_eq_some hs with ⟨-, rfl⟩ | ⟨hne, -⟩
        · cases howned
        · exact absurd rfl hne
      · rintro ⟨s, hs, -⟩
        rw [hnone] at hs
        cases hs
    · exact stepped_of_same hok h (Function.update_of_ne hv ..) fun _ _ _ => htenure
  | poll v input =>
    by_cases hv : t = v
    · subst hv
      exact poll_stepped hok h hflow hpace
    · obtain ⟨hsame, htenure⟩ := on_foreign hok hv (fun hi => poll_acts hi input)
      exact stepped_of_same hok h hsame htenure
  | close v =>
    by_cases hv : t = v
    · subst hv
      exact close_stepped hok h
    · obtain ⟨hsame, htenure⟩ := on_foreign hok hv close_acts
      exact stepped_of_same hok h hsame htenure
  | destroy v =>
    by_cases hv : t = v
    · subst hv
      refine ⟨fun s hs => ?_, (close_stepped hok h).fair⟩
      exact absurd rfl (System.update_none_eq_some hs).1
    · obtain ⟨hsame, htenure⟩ := on_foreign hok hv close_acts
      refine stepped_of_same hok h ?_ htenure
      exact (Function.update_of_ne hv ..).trans hsame
  | backend b => exact stepped_of_same hok h rfl fun _ _ _ => rfl
  | upload u => exact stepped_of_same hok h rfl fun _ _ _ => rfl

/-- The turns hold after every run of such operations. -/
theorem after_turns (b : β) (u : υ) (t : UInt32) (ops : List (Op β υ))
    (hflow : ∀ pre o, pre ++ [o] <+: ops → Flowing t (System.after b u pre) o)
    (hpace : paced → ∀ pre o, pre ++ [o] <+: ops → Pacing t (System.after b u pre) o) :
    Turns paced t (System.after b u ops) := by
  induction ops using List.reverseRecOn with
  | nil =>
    intro s hs
    cases hs
  | append_singleton ops o ih =>
    have hpre : ∀ {pre : List (Op β υ)}, pre <+: ops → pre <+: ops ++ [o] :=
      fun h => h.trans (List.prefix_append ops [o])
    have hturns := ih (fun pre o' h => hflow pre o' (hpre h))
      (fun hpaced pre o' h => hpace hpaced pre o' (hpre h))
    have hok := (inward_rule.after b u ops).ok
    rw [System.after, Runs.run_concat]
    exact (step_stepped hok hturns (hflow ops o List.prefix_rfl)
      (fun hpaced => hpace hpaced ops o List.prefix_rfl)).turns

/-- **Replies and data alternate.** In every run in which the transport of session `t`
takes everything and there is always data for its peer, and in every step of it that
`t` starts as the owner of the channel: at most one serial frame is queued between the
moment a control frame is ready and its response, and a control frame that is waiting
is answered in the next poll. If moreover no frame without payload is read at once while
the flag is not set, a serial frame is queued between any two responses. -/
theorem replies_alternate (b : β) (u : υ) (t : UInt32) (ops : List (Op β υ))
    (hflow : ∀ pre o, pre ++ [o] <+: ops → Flowing t (System.after b u pre) o) :
    (∀ pre o, pre ++ [o] <+: ops → (System.after b u pre).Owns t →
      Prompt (tenure t (System.after b u (pre ++ [o])).channel.history) ∧
      ∀ s s' input, o = .poll t input → (System.after b u pre).sessions t = some s → Waits s →
        (System.after b u (pre ++ [o])).sessions t = some s' → s'.result = .running →
        tenure t (System.after b u (pre ++ [o])).channel.history
          = tenure t (System.after b u pre).channel.history ++ [.response]) ∧
    ((∀ pre o, pre ++ [o] <+: ops → Pacing t (System.after b u pre) o) →
      ∀ pre o, pre ++ [o] <+: ops → (System.after b u pre).Owns t →
        Alternates (tenure t (System.after b u (pre ++ [o])).channel.history)) := by
  have hpre : ∀ {pre : List (Op β υ)} {o : Op β υ}, pre ++ [o] <+: ops → pre <+: ops :=
    fun h => (List.prefix_append _ _).trans h
  have hconcat : ∀ (pre : List (Op β υ)) o,
      System.after b u (pre ++ [o]) = (System.after b u pre).step o :=
    fun pre o => Runs.run_concat _ _ _ _
  constructor
  · intro pre o hstep howns
    have hok := (inward_rule.after b u pre).ok
    have hturns : Turns False t (System.after b u pre) :=
      after_turns b u t pre (fun pre' o' h => hflow pre' o' (h.trans (hpre hstep)))
        (fun h => h.elim)
    rw [hconcat]
    refine ⟨((step_stepped hok hturns (hflow pre o hstep) (fun h => h.elim)).fair howns).prompt, ?_⟩
    rintro s s' input rfl hs hwaits hs' hrun'
    obtain ⟨v, hv, hrun, howned⟩ := howns
    rw [hs, Option.some.injEq] at hv
    subst hv
    have hi := hok.inv hs
    have howner : (((System.after b u pre).ctx s).poll input).session.owner = s.owner :=
      Acts.token_eq (poll_acts (c := (System.after b u pre).ctx s) hi input)
    have halive : Alive ((System.after b u pre).ctx s) := ⟨hi, hrun, howned⟩
    -- a poll that finds a waiting control frame queues its response and nothing else
    have hreply := (poll_after halive (hturns s hs hrun howned)
      (hflow pre _ hstep s input rfl hs howned) (fun h => h.elim)).2 hwaits
    have hon : (System.after b u pre).step (.poll t input)
        = (System.after b u pre).put t (((System.after b u pre).ctx s).poll input) := by
      simp only [System.step, System.on, hs]
    rw [hon] at hs' ⊢
    have hsame : s' = (((System.after b u pre).ctx s).poll input).session := by
      rcases System.update_eq_some hs' with ⟨-, rfl⟩ | ⟨hne, -⟩
      · rfl
      · exact absurd rfl hne
    subst hsame
    have heq := hreply.resolve_left (not_not.mpr hrun')
    rw [Ctx.tenure, Ctx.tenure, howner] at heq
    change tenure s.owner _ = tenure s.owner _ ++ _ at heq
    rw [hok.token hs] at heq
    exact heq
  · intro hpace pre o hstep howns
    have hok := (inward_rule.after b u pre).ok
    have hturns : Turns True t (System.after b u pre) :=
      after_turns b u t pre (fun pre' o' h => hflow pre' o' (h.trans (hpre hstep)))
        (fun _ pre' o' h => hpace pre' o' (h.trans (hpre hstep)))
    rw [hconcat]
    exact ((step_stepped hok hturns (hflow pre o hstep) (fun _ => hpace pre o hstep)).fair
      howns).alternates trivial

/-! ## Two runs -/

/-- A backend that always has a byte. -/
structure Chatter where

instance : StreamBackend Chatter where
  connected _ := true
  read c _ := ([0x55], c)
  write c data := (data.length, c)
  discard c := c

instance (s : Session) (input : PollInput) : Decidable (Paced s input) := by
  unfold Paced
  infer_instance

/-- A run whose polls all offer bytes and take all output. -/
def Offering (ops : List (Op Chatter NoUpload)) : Prop :=
  ∀ o ∈ ops, ∀ t input, o = .poll t input → ∃ bytes, input = System.offering bytes

theorem Offering.flowing {ops : List (Op Chatter NoUpload)} (h : Offering ops) (b : Chatter)
    (u : NoUpload) (t : UInt32) : ∀ pre o, pre ++ [o] <+: ops → Flowing t (System.after b u pre) o := by
  intro pre o hpre s input ho _ _
  obtain ⟨bytes, rfl⟩ := h o (hpre.subset (by simp)) t input ho
  exact ⟨fun _ => rfl, .inr fun _ _ => List.cons_ne_nil _ _⟩

theorem offering_deliver (t : UInt32) (f : Frame) : Offering (System.deliver t f) := by
  intro o ho u input heq
  simp only [System.deliver, List.mem_cons, List.not_mem_nil, or_false] at ho
  rcases ho with rfl | rfl <;> cases heq <;> exact ⟨_, rfl⟩

theorem offering_poll (t : UInt32) (bytes : List Byte) : Offering [.poll t (System.offering bytes)] := by
  intro o ho u input heq
  rw [List.mem_singleton] at ho
  subst ho
  cases heq
  exact ⟨_, rfl⟩

theorem Offering.append {ops ops' : List (Op Chatter NoUpload)} (h : Offering ops)
    (h' : Offering ops') : Offering (ops ++ ops') := by
  intro o ho
  rcases List.mem_append.mp ho with ho | ho
  · exact h o ho
  · exact h' o ho

theorem offering_opening_run : Offering System.opening_run := by
  have hconstruct : Offering [.construct 1 0 System.sample_identity false] := by
    intro o ho u input heq
    rw [List.mem_singleton] at ho
    subst ho
    cases heq
  exact hconstruct.append ((offering_deliver _ _).append (offering_deliver _ _))

/-- A session that opens the channel, and one more poll. -/
def chatter_run : List (Op Chatter NoUpload) :=
  System.opening_run ++ [.poll 1 (System.offering [])]

/-- Whether an operation is paced, as a check. -/
def is_paced (t : UInt32) (sys : System Chatter NoUpload) : Op Chatter NoUpload → Bool
  | .poll owner input => owner != t || (sys.sessions t).all fun s => decide (Paced s input)
  | _ => true

theorem pacing_of_check {sys : System Chatter NoUpload} {t : UInt32} {o : Op Chatter NoUpload}
    (h : is_paced t sys o = true) : Pacing t sys o := by
  rintro s input rfl hs _
  simpa [is_paced, hs] using h

theorem replies_alternate_chatter :
    Alternates (tenure 1 (System.after Chatter.mk NoUpload.mk chatter_run).channel.history) := by
  have hflow := (offering_opening_run.append (offering_poll 1 [])).flowing Chatter.mk NoUpload.mk 1
  refine (replies_alternate Chatter.mk NoUpload.mk 1 chatter_run hflow).2 ?_ System.opening_run _
    List.prefix_rfl ?_
  · refine Runs.forall_split fun i hi => pacing_of_check ?_
    have hall : ∀ i : Fin chatter_run.length,
        is_paced 1 (System.after Chatter.mk NoUpload.mk (chatter_run.take i)) (chatter_run.get i)
          = true := by
      decide +kernel
    exact hall ⟨i, hi⟩
  · have hview : ((System.after Chatter.mk NoUpload.mk System.opening_run).sessions 1).map
        (fun s => (s.result, s.owned)) = some (.running, true) := by
      decide +kernel
    obtain ⟨s, hs, heq⟩ := Option.map_eq_some_iff.mp hview
    exact ⟨s, hs, congrArg Prod.fst heq, congrArg Prod.snd heq⟩

/-- The same, an upload frame and then one without payload. -/
def unpaced_run : List (Op Chatter NoUpload) :=
  chatter_run ++ System.deliver 1 ⟨.upload, 3, [0]⟩ ++ [.poll 1 (System.offering [])] ++
    [.poll 1 (System.offering (wire ⟨.upload, 4, []⟩))]

/-- The answers to the two upload frames follow each other, in a run that flows. -/
theorem replies_not_alternating :
    (∀ pre o, pre ++ [o] <+: unpaced_run →
      Flowing 1 (System.after Chatter.mk NoUpload.mk pre) o) ∧
    tenure 1 (System.after Chatter.mk NoUpload.mk unpaced_run).channel.history
      = [.response, .serial, .serial, .ready, .serial, .response, .ready, .response] ∧
    ¬ Alternates (tenure 1 (System.after Chatter.mk NoUpload.mk unpaced_run).channel.history) := by
  have htenure : tenure 1 (System.after Chatter.mk NoUpload.mk unpaced_run).channel.history
      = [.response, .serial, .serial, .ready, .serial, .response, .ready, .response] := by
    decide +kernel
  refine ⟨?_, htenure, ?_⟩
  · exact ((((offering_opening_run.append (offering_poll 1 [])).append
      (offering_deliver 1 _)).append (offering_poll 1 [])).append (offering_poll 1 _)).flowing _ _ 1
  · rw [htenure]
    intro h
    obtain ⟨z, hz, rfl⟩ := h [.response, .serial, .serial, .ready, .serial] .response [.ready]
      .response [] rfl rfl rfl
    simp at hz

end Firmingo
