/-
One reply for each request, in order.

The identifiers of the requests and upload frames a session has received are those of
the responses it has queued, and at most one more: that of the frame in its decoder.
A dispatch moves that one identifier over, or ends the session, and makes the one call its
frame orders. A poll dispatches at most one frame, and leaves the upload service alone
otherwise, so that no frame is executed twice, skipped or answered in another's place.
-/
import Firmingo.Clocks
import Firmingo.Execution

set_option autoImplicit false

open Octets

namespace Firmingo

open Protocol Machine

/-! ## Reading the history -/

/-- The identifiers of the requests and upload frames session `t` received in its life. -/
def asked (t : UInt32) : List Event → List ℕ :=
  Runs.since (is_created t) fun
    | .received u f => if u = t ∧ is_control f.type then [f.request] else []
    | _ => []

/-- The identifiers of the responses session `t` queued in its life. -/
def answered (t : UInt32) : List Event → List ℕ :=
  Runs.since (is_created t) fun
    | .queued u f _ => if u = t ∧ f.type = .response then [f.request] else []
    | _ => []

/-- The identifier of the control frame in the decoder. -/
def waiting (p : Party) : List ℕ :=
  if p.decoder.state = .ready ∧ is_control p.decoder.type then [p.decoder.request] else []

/-- Events that are neither a frame nor a new session. -/
def silent : Event → Bool
  | .created _ | .received _ _ | .queued _ _ _ => false
  | _ => true

variable {more : List Event}

theorem asked_silent (t : UInt32) (history : List Event)
    (h : ∀ e ∈ more, silent e = true) : asked t (history ++ more) = asked t history := by
  refine Runs.since_quiet _ _ _ _ ?_
  intro e he
  have hs := h e he
  cases e <;> first | exact ⟨rfl, rfl⟩ | cases hs

theorem answered_silent (t : UInt32) (history : List Event)
    (h : ∀ e ∈ more, silent e = true) : answered t (history ++ more) = answered t history := by
  refine Runs.since_quiet _ _ _ _ ?_
  intro e he
  have hs := h e he
  cases e <;> first | exact ⟨rfl, rfl⟩ | cases hs

theorem asked_received (t : UInt32) (history : List Event) (f : Frame) :
    asked t (history ++ [.received t f])
      = asked t history ++ if is_control f.type then [f.request] else [] := by
  rw [asked, Runs.since_concat]
  simp [is_created]

theorem answered_received (t : UInt32) (history : List Event) (f : Frame) :
    answered t (history ++ [.received t f]) = answered t history := by
  rw [answered, Runs.since_concat]
  simp [is_created]

theorem asked_queued (t : UInt32) (history : List Event) (f : Frame) (limit : ℕ) :
    asked t (history ++ [.queued t f limit]) = asked t history := by
  rw [asked, Runs.since_concat]
  simp [is_created]

theorem answered_queued (t : UInt32) (history : List Event) (f : Frame) (limit : ℕ) :
    answered t (history ++ [.queued t f limit])
      = answered t history ++ if f.type = .response then [f.request] else [] := by
  rw [answered, Runs.since_concat]
  simp [is_created]

/-- The account of requests and replies of a session. -/
structure Correlated (k : Config) : Prop where
  running : k.party.result = .running →
    asked k.party.token k.shared.history
      = answered k.party.token k.shared.history ++ waiting k.party
  ended : k.party.result ≠ .running →
    answered k.party.token k.shared.history <+: asked k.party.token k.shared.history

theorem waiting_of_not_ready {p : Party} (h : p.decoder.state ≠ .ready) : waiting p = [] := by
  rw [waiting, if_neg]
  rintro ⟨hr, -⟩
  exact h hr

theorem is_control_iff {type : FrameType} :
    is_control type = true ↔ type = .request ∨ type = .upload := by
  simp [is_control]

theorem waiting_of_control {p : Party} (hr : p.decoder.state = .ready)
    (hc : is_control p.decoder.type = true) : waiting p = [p.decoder.request] := by
  rw [waiting, if_pos ⟨hr, hc⟩]

theorem waiting_of_serial {p : Party} (hs : p.decoder.type = .serial) : waiting p = [] := by
  rw [waiting, if_neg]
  rintro ⟨-, hc⟩
  rw [hs] at hc
  cases hc

/-- An action that neither takes nor answers a control frame keeps the account. -/
theorem Correlated.silent {k k' : Config} (h : Correlated k) (more : List Event)
    (hm : ∀ e ∈ more, silent e = true) (hh : k'.shared.history = k.shared.history ++ more)
    (ht : k'.party.token = k.party.token) (hr : k'.party.result = k.party.result)
    (hw : waiting k'.party = waiting k.party) : Correlated k' := by
  constructor
  · intro hrun
    rw [hh, ht, hw, asked_silent _ _ hm, answered_silent _ _ hm]
    exact h.running (hr ▸ hrun)
  · intro hend
    rw [hh, ht, asked_silent _ _ hm, answered_silent _ _ hm]
    exact h.ended (hr ▸ hend)

/-- **Every action keeps the account.** -/
theorem Correlated.act {k k' : Config} (hact : Act k k') (h : Correlated k) : Correlated k' := by
  cases hact with
  | feed p s bytes running incomplete =>
    have hold : waiting p = [] := waiting_of_not_ready (by rw [incomplete]; decide)
    have hbefore := h.running running
    simp only [hold, List.append_nil] at hbefore
    by_cases hready : (p.decoder.feed bytes).state = .ready
    · rw [if_pos hready]
      refine ⟨?_, fun hend => absurd running hend⟩
      intro _
      -- the new frame is asked, and waits
      simp only [Shared.log, asked_received, answered_received]
      rw [hbefore, waiting]
      simp only [hready, true_and]
      rfl
    · rw [if_neg hready]
      refine h.silent [] (by simp) (by simp [Shared.log]) rfl rfl ?_
      rw [hold]
      exact waiting_of_not_ready hready
  | send p s n running fits => exact h.silent _ (by simp [Firmingo.silent]) rfl rfl rfl rfl
  | answer p s payload limit running ready control idle limit_ge limit_le fits buffer =>
    refine ⟨?_, fun hend => absurd running hend⟩
    intro _
    have hbefore := h.running running
    simp only [waiting_of_control ready (is_control_iff.mpr control)] at hbefore
    simp only [Shared.log, asked_queued, answered_queued, if_true]
    rw [hbefore, waiting_of_not_ready, List.append_nil]
    simp
  | acquire p s running token free ready control =>
    exact h.silent _ (by simp [opening, Firmingo.silent]) rfl rfl rfl rfl
  | release p s owned => exact h.silent _ (by simp [ending, Firmingo.silent]) rfl rfl rfl rfl
  | stop p s result limit unowned limit_ge limit_le terminal =>
    refine ⟨fun hrun => absurd hrun terminal, ?_⟩
    intro _
    by_cases hrun : p.result = .running
    · have hbefore := h.running hrun
      simp only at hbefore ⊢
      rw [hbefore]
      exact List.prefix_append _ _
    · exact h.ended hrun
  | pull p s count running owned empty ready serial count_eq =>
    refine ⟨?_, ?_⟩
    · intro _
      have hbefore := h.running running
      simp only [waiting_of_serial serial] at hbefore
      split
      · rw [waiting_of_not_ready (by simp)]
        exact hbefore
      · rw [waiting_of_serial (p := { p with data_offset := p.data_offset + count }) serial]
        exact hbefore
    · intro hend
      split at hend
      · exact absurd running hend
      · exact absurd running hend
  | push p s n running owned fits => exact h.silent _ (by simp [Firmingo.silent]) rfl rfl rfl rfl
  | fetch p s bytes running owned empty fits =>
    exact h.silent _ (by simp [Firmingo.silent]) rfl rfl rfl rfl
  | emit p s running owned some_data idle =>
    refine ⟨?_, fun hend => absurd running hend⟩
    intro _
    have hbefore := h.running running
    simp only [Shared.log, asked_queued, answered_queued, reduceCtorEq, if_false, List.append_nil]
    exact hbefore

section Replies

variable {β υ : Type} [StreamBackend β] [UploadService υ]

/-- What one execution of a control frame does: the frame leaves the decoder, nothing
else arrives, and its identifier is the one new answer, unless the session ends. -/
structure Executed (t : UInt32) (id : ℕ) (history : List Event) (c : Ctx β υ) : Prop where
  owner : c.session.owner = t
  decoder : c.session.decoder.bytes = [] ∧ c.session.decoder.state = .incomplete
  asked_eq : asked t c.channel.history = asked t history
  running : c.session.result = .running → answered t c.channel.history = answered t history ++ [id]
  ended : c.session.result ≠ .running →
    answered t c.channel.history <+: answered t history ++ [id]

/-- A part of a poll that executes no frame and does not end the session: the upload service
is left alone, and nothing is answered. -/
structure Idle (c c' : Ctx β υ) : Prop where
  owner : c'.session.owner = c.session.owner
  attached : c'.session.has_upload = c.session.has_upload
  released : c'.session.upload_released = c.session.upload_released
  upload : c'.upload = c.upload
  answered_eq : answered c.session.owner c'.channel.history
    = answered c.session.owner c.channel.history

/-- One that executes no frame but may end the session, of which the service hears. -/
def Passed (c c' : Ctx β υ) : Prop :=
  Idle c c' ∨ c'.session.result ≠ .running ∧ c'.upload = c.let_go.upload

/-- **What a poll does with control frames**: it executes none, or the one that waits, once.
What comes before and after that execution executes none. -/
inductive Round (c : Ctx β υ) (input : PollInput) (c' : Ctx β υ) : Prop
  | waited (passed : Passed c c')
  | executed (c₁ c₂ : Ctx β υ) (before : Idle c c₁)
      (waits : waiting c₁.session.party = [c₁.session.decoder.request])
      (performed : c₁.Performed input.now input.memory c₂)
      (once : Executed c.session.owner c₁.session.decoder.request c₁.channel.history c₂)
      (after : Passed c₂ c')

variable {c c' c'' : Ctx β υ} {input : PollInput}

omit [StreamBackend β] [UploadService υ] in
theorem Idle.refl (c : Ctx β υ) : Idle c c := ⟨rfl, rfl, rfl, rfl, rfl⟩

omit [StreamBackend β] [UploadService υ] in
theorem Idle.trans (h : Idle c c') (h' : Idle c' c'') : Idle c c'' := by
  have hanswered := h'.answered_eq
  rw [h.owner] at hanswered
  exact ⟨h'.owner.trans h.owner, h'.attached.trans h.attached, h'.released.trans h.released,
    h'.upload.trans h.upload, hanswered.trans h.answered_eq⟩

/-- What a session leaves behind is the same before and after an idle part. -/
theorem Idle.let_go_upload (h : Idle c c') : c'.let_go.upload = c.let_go.upload := by
  simp only [Ctx.let_go]
  rw [h.attached, h.released, h.upload, h.owner]

theorem Idle.passed (h : Idle c c') (h' : Passed c' c'') : Passed c c'' := by
  rcases h' with hidle | ⟨hend, hupload⟩
  · exact .inl (h.trans hidle)
  · exact .inr ⟨hend, hupload.trans h.let_go_upload⟩

theorem Idle.round (h : Idle c c') (h' : Round c' input c'') : Round c input c'' := by
  cases h' with
  | waited passed => exact .waited (h.passed passed)
  | executed c₁ c₂ before waits performed once after =>
    rw [h.owner] at once
    exact .executed c₁ c₂ (h.trans before) waits performed once after

/-- A part that leaves the session running is idle. -/
theorem Passed.idle (h : Passed c c') (hrun : c'.session.result = .running) : Idle c c' := by
  rcases h with hidle | ⟨hend, -⟩
  · exact hidle
  · exact absurd hrun hend

theorem Round.passed (h : Round c input c') (hrun : c'.session.result = .running)
    (h' : Passed c' c'') : Round c input c'' := by
  cases h with
  | waited passed => exact .waited ((passed.idle hrun).passed h')
  | executed c₁ c₂ before waits performed once after =>
    exact .executed c₁ c₂ before waits performed once ((after.idle hrun).passed h')

/-- A poll that answers a frame and leaves the session running has executed that frame. -/
theorem Round.answers (h : Round c input c') (hrun : c'.session.result = .running) {id : ℕ}
    (hanswered : answered c.session.owner c'.channel.history
      = answered c.session.owner c.channel.history ++ [id]) :
    ∃ c₁ c₂ : Ctx β υ, Idle c c₁ ∧ waiting c₁.session.party = [id] ∧
      c₁.Performed input.now input.memory c₂ ∧ Idle c₂ c' := by
  cases h with
  | waited passed =>
    rw [(passed.idle hrun).answered_eq] at hanswered
    simp at hanswered
  | executed c₁ c₂ before waits performed once after =>
    have hidle := after.idle hrun
    have hle : answered c.session.owner c₂.channel.history
        <+: answered c.session.owner c₁.channel.history ++ [c₁.session.decoder.request] := by
      by_cases hend : c₂.session.result = .running
      · rw [once.running hend]
      · exact once.ended hend
    have hafter := hidle.answered_eq
    rw [once.owner] at hafter
    -- one more answer than before is all that the execution can give
    rw [← hafter, hanswered, before.answered_eq] at hle
    have heq := hle.eq_of_length (by simp)
    have hid : id = c₁.session.decoder.request := by simpa using heq
    rw [← hid] at waits
    exact ⟨c₁, c₂, before, waits, performed, hidle⟩

end Replies

end Firmingo
