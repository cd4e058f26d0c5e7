/-
What a session does outside itself.

The machine of `Machine.lean` leaves the answers of the backend and of the upload
service open. Here is the other half: every change a session makes to the backend, the
upload service, the channel's owner and the history is one of a few effects, each with
the check that was made before it. An acquire finds the channel free and the service
not blocking it; `begin` and `commit` find the channel without an owner; the service is
told of a disconnect at most once.

`poll_effects` and `close_effects` say so of the two calls a transport makes.
-/
import Firmingo.System

set_option autoImplicit false

open Octets

namespace Firmingo

open Protocol Machine

variable {β υ : Type}

/-- What sessions share, and whether this one has told the service that it left. -/
structure World (β υ : Type) where
  owner : UInt32
  backend : β
  upload : υ
  history : List Event
  released : Bool

variable [StreamBackend β] [UploadService υ]

/-- The effects of session `t`, which has the service or not. -/
inductive Effect (t : UInt32) (attached : Bool) : World β υ → World β υ → Prop
  /-- A frame or bytes of the session's own transport. -/
  | note (w : World β υ) (e : Event) (own : sessional e = true) (named : by_token t e = true) :
      Effect t attached w { w with history := w.history ++ [e] }
  /-- The stream reads from the backend, and writes to it. -/
  | fetch (w : World β υ) (capacity : ℕ) (owns : w.owner = t) :
      Effect t attached w { w with
        backend := (StreamBackend.read w.backend capacity).2
        history := w.history ++ if (StreamBackend.read w.backend capacity).1.length ≤ capacity then
          [.backend_read (StreamBackend.read w.backend capacity).1] else [] }
  | store (w : World β υ) (data : List Byte) (owns : w.owner = t) :
      Effect t attached w { w with
        backend := (StreamBackend.write w.backend data).2
        history := w.history ++ if (StreamBackend.write w.backend data).1 ≤ data.length then
          [.backend_write (data.take (StreamBackend.write w.backend data).1)] else [] }
  /-- The backend is asked to prepare, to configure itself or to report. -/
  | prepare (w : World β υ) (free : w.owner = 0) :
      Effect t attached w { w with backend := (StreamBackend.prepare_open w.backend).2 }
  | configure (w : World β υ) (value : SerialConfiguration) :
      Effect t attached w { w with backend := (StreamBackend.configure w.backend value).2 }
  | report (w : World β υ) :
      Effect t attached w { w with backend := (StreamBackend.diagnostics w.backend).2 }
  /-- The channel is acquired, and released or lost. -/
  | acquire (w : World β υ) (token : t ≠ 0) (free : w.owner = 0)
      (unblocked : attached = true → UploadService.blocks_console w.upload = false) :
      Effect t attached w { w with
        owner := t
        backend := StreamBackend.opened (StreamBackend.discard w.backend) t
        history := w.history ++ opening t }
  | release (w : World β υ) (token : t ≠ 0) (owns : w.owner = t) :
      Effect t attached w { w with
        owner := 0
        backend := StreamBackend.discard (StreamBackend.closed w.backend)
        history := w.history ++ ending t }
  /-- The upload service is called, or told that the session left. -/
  | call (w : World β υ) (call : UploadCall) (has : attached = true)
      (free : call.exclusive = true → w.owner = 0) :
      Effect t attached w { w with upload := (call.run w.upload t).2 }
  | disconnect (w : World β υ) (has : attached = true) (first : w.released = false) :
      Effect t attached w { w with
        upload := UploadService.disconnect w.upload t
        released := true }
  | leave (w : World β υ) (told : attached = false ∨ w.released = true) :
      Effect t attached w { w with released := true }

namespace Ctx

def world (c : Ctx β υ) : World β υ :=
  ⟨c.channel.stream.owner, c.channel.backend, c.upload, c.channel.history, c.session.upload_released⟩

/-- A method of a session is a sequence of its effects. -/
structure Effects (c c' : Ctx β υ) : Prop where
  owner : c'.session.owner = c.session.owner
  attached : c'.session.has_upload = c.session.has_upload
  steps : Relation.ReflTransGen (Effect c.session.owner c.session.has_upload) c.world c'.world

variable {c c' c'' : Ctx β υ}

theorem Effects.trans (h : Effects c c') (h' : Effects c' c'') : Effects c c'' := by
  have hsteps := h'.steps
  rw [h.owner, h.attached] at hsteps
  exact ⟨h'.owner.trans h.owner, h'.attached.trans h.attached, h.steps.trans hsteps⟩

/-- Where only the session itself changes, there is no effect. -/
theorem Effects.of_world (howner : c'.session.owner = c.session.owner)
    (hattached : c'.session.has_upload = c.session.has_upload) (hworld : c'.world = c.world) :
    Effects c c' :=
  ⟨howner, hattached, by rw [hworld]⟩

theorem Effects.refl (c : Ctx β υ) : Effects c c := .of_world rfl rfl rfl

theorem Effects.single (howner : c'.session.owner = c.session.owner)
    (hattached : c'.session.has_upload = c.session.has_upload)
    (h : Effect c.session.owner c.session.has_upload c.world c'.world) : Effects c c' :=
  ⟨howner, hattached, .single h⟩

/-! ## Ending a session -/

/-- A release tells the backend and discards what was pending. -/
theorem release_effects (c : Ctx β υ) :
    Effects c { c with channel := c.channel.release c.session.owner } := by
  by_cases hown : c.session.owner = 0 ∨ c.session.owner ≠ c.channel.stream.owner
  · have hclose : c.channel.stream.close c.session.owner = (.invalid_owner, c.channel.stream) := by
      simp [Stream.close, hown]
    refine .of_world rfl rfl ?_
    simp [world, Channel.release, hclose]
  · have htoken : c.session.owner ≠ 0 := fun h => hown (.inl h)
    have howner : c.channel.stream.owner = c.session.owner := by
      by_contra hne
      exact hown (.inr (Ne.symm hne))
    have hclose : c.channel.stream.close c.session.owner = (.ok, c.channel.stream.clear) := by
      simp [Stream.close, htoken, howner]
    refine .single rfl rfl ?_
    have hact : Effect c.session.owner c.session.has_upload c.world _ :=
      Effect.release c.world htoken howner
    simpa [world, Channel.release, hclose, Channel.retire, Channel.call_closed,
      Channel.call_discard, Channel.record, ending] using hact

/-- The first half of `let_go`. -/
def let_go_channel (c : Ctx β υ) : Ctx β υ :=
  { c with channel := if c.session.owned then c.channel.release c.session.owner else c.channel }

theorem let_go_channel_effects (c : Ctx β υ) : Effects c c.let_go_channel := by
  unfold let_go_channel
  split
  · exact release_effects c
  · exact .refl c

/-- The session gives back what it owns, and the service hears of it once. -/
theorem let_go_effects (c : Ctx β υ) : Effects c c.let_go := by
  refine (let_go_channel_effects c).trans ?_
  by_cases htell : c.session.has_upload = true ∧ c.session.upload_released = false
  · refine .single rfl rfl ?_
    have hact := Effect.disconnect (t := c.session.owner) c.let_go_channel.world htell.1 htell.2
    simpa [let_go, let_go_channel, world, htell.1, htell.2] using hact
  · have htold : c.session.has_upload = false ∨ c.session.upload_released = true := by
      by_contra hno
      rw [not_or, Bool.not_eq_false, Bool.not_eq_true] at hno
      exact htell hno
    have hquiet : (c.session.has_upload && !c.session.upload_released) = false := by
      rcases htold with h | h <;> simp [h]
    refine .single rfl rfl ?_
    have hact := Effect.leave (t := c.session.owner) c.let_go_channel.world htold
    simpa [let_go, let_go_channel, world, hquiet] using hact

theorem close_effects (c : Ctx β υ) : Effects c c.close :=
  (let_go_effects c).trans (.of_world rfl rfl rfl)

theorem finish_effects (c : Ctx β υ) (result : SessionResult) : Effects c (c.finish result) :=
  (close_effects c).trans (.of_world rfl rfl rfl)

/-! ## Replies -/

theorem Effects.reset (h : Effects c c') : Effects c c'.reset_decoder :=
  h.trans (.of_world rfl rfl rfl)

theorem say_effects (c : Ctx β υ) (id : ℕ) (reply : Reply) : Effects c (c.say id reply) := by
  rcases c.say_cases id reply with h | ⟨-, -, -, h⟩
  · rw [h]
    exact finish_effects c _
  · rw [h]
    exact .single rfl rfl (.note c.world _ rfl (by simp [by_token]))

theorem settle_effects (c : Ctx β υ) (now : UInt32) (id : ℕ) (o : Outcome) :
    Effects c (c.settle now id o) := by
  cases o with
  | replied turn reply =>
    cases turn <;> exact (say_effects c id reply).trans (.of_world rfl rfl rfl)
  | dismissed =>
    have hreply := (say_effects c id (.error "invalid_argument")).reset
    exact (hreply.trans (let_go_effects _)).trans (.of_world rfl rfl rfl)
  | abandoned => exact finish_effects c _

/-! ## Dispatch -/

/-- The configuration step of an acquire, and the preparation after it. -/
theorem acquire_configure_effects (c : Ctx β υ) (configuration : Option SerialConfiguration) :
    Effects c { c with channel := (c.channel.acquire_configure configuration).2 } := by
  cases configuration with
  | none => exact .refl c
  | some value => exact .single rfl rfl (.configure c.world value)

/-- A session acquires the channel only while no transaction blocks the console. -/
theorem acquire_effects (c : Ctx β υ) (now : UInt32) (configuration : Option SerialConfiguration)
    (hopen : c.session.has_upload = true → UploadService.blocks_console c.upload = false) :
    Effects c { c with channel := (c.channel.acquire c.session.owner now configuration).2 } := by
  have hconfigure := acquire_configure_effects c configuration
  have hstream := c.channel.acquire_configure_stream configuration
  unfold Channel.acquire
  split
  · exact .refl c
  next hfree =>
  rw [not_not] at hfree
  simp only
  generalize c.channel.acquire_configure configuration = configured at hconfigure hstream ⊢
  obtain ⟨configured, channel⟩ := configured
  simp only at hconfigure hstream ⊢
  rw [← hstream] at hfree
  split
  · exact hconfigure
  have hprepare : Effects { c with channel := channel } { c with channel := { channel with
      backend := (StreamBackend.prepare_open channel.backend).2 } } :=
    .single rfl rfl (.prepare _ hfree)
  have hprepared := hconfigure.trans hprepare
  generalize StreamBackend.prepare_open channel.backend = prepared at hprepared ⊢
  obtain ⟨prepared, backend⟩ := prepared
  simp only at hprepared ⊢
  split
  · exact hprepared
  -- the stream refuses the token zero after the backend was prepared
  by_cases htoken : c.session.owner = 0
  · have hno : channel.stream.open_for c.session.owner now = (.invalid_owner, channel.stream) := by
      simp [Stream.open_for, htoken]
    rw [hno]
    exact hprepared
  · have hyes : channel.stream.open_for c.session.owner now
        = (.ok, { channel.stream.clear with owner := c.session.owner, last_progress := now }) := by
      simp [Stream.open_for, htoken, hfree]
    rw [hyes]
    refine hprepared.trans (.single rfl rfl ?_)
    have hact : Effect c.session.owner c.session.has_upload
        (world { c with channel := { channel with backend := backend } }) _ :=
      .acquire _ htoken hfree hopen
    simpa [world, Channel.call_discard, Channel.call_opened, Channel.record, opening] using hact

theorem configure_effects (c : Ctx β υ) (configuration : SerialConfiguration) :
    Effects c { c with channel := (c.channel.configure c.session.owner configuration).2 } := by
  unfold Channel.configure
  split
  · exact .refl c
  split
  · exact .refl c
  · exact .single rfl rfl (.configure c.world configuration)

/-- An errand is the effect it stands for, after the test of that effect. -/
theorem perform_effects (c : Ctx β υ) (now : UInt32) (memory : Option MemorySamples) :
    Effects c (c.perform now (c.errand memory)) := by
  rcases he : c.errand memory with _ | e
  · exact .refl c
  have hpermits := errand_permitted he
  cases e with
  | service call => exact .single rfl rfl (.call c.world call hpermits.1 hpermits.2)
  | status id => exact .refl c
  | negotiate offer =>
    simp only [perform]
    split <;> exact .of_world rfl rfl rfl
  | acquire configuration =>
    exact (acquire_effects c now configuration hpermits.2).trans (.of_world rfl rfl rfl)
  | configure configuration => exact configure_effects c configuration
  | release => exact (release_effects c).trans (.of_world rfl rfl rfl)
  | report => exact .single rfl rfl (.report c.world)

/-- The frame in the decoder is executed by the effects of its errand. -/
theorem dispatch_effects (c : Ctx β υ) (now : UInt32) (memory : Option MemorySamples) :
    Effects c (c.dispatch now memory) := by
  by_cases hcontrol : c.session.decoder.type = .request ∨ c.session.decoder.type = .upload
  · obtain ⟨o, -, heq⟩ := dispatch_settles now memory hcontrol
    rw [heq]
    exact (perform_effects c now memory).trans (settle_effects _ now _ o)
  rcases dispatch_other now memory hcontrol with heq | ⟨result, -, heq⟩
  · rw [heq]
    exact .refl c
  · rw [heq]
    exact finish_effects c _

/-! ## The pump -/

theorem Pulled.effects (h : Pulled c c') : Effects c c' := by
  cases h with
  | pending => exact .refl c
  | nothing empty peak => exact .of_world rfl rfl rfl
  | taken empty ready serial peak count_eq =>
    unfold consume
    split <;> exact .of_world rfl rfl rfl

theorem Pushed.effects (h : Pushed c c') (ha : Alive c) : Effects c c' := by
  have hact : Effect c.session.owner c.session.has_upload c.world _ :=
    .store c.world c.to_backend.bytes ha.owner
  cases h with
  | nothing => exact .refl c
  | taken some le write =>
    refine .single rfl rfl ?_
    simpa [world, wrote, put_to_backend, set_stream, stream, write, le] using hact
  | overlong lt write =>
    refine .single rfl rfl ?_
    simpa [world, write, not_le.mpr lt] using hact

theorem Fetched.effects {ok : Bool} (h : Fetched c ok c') (ha : Alive c) : Effects c c' := by
  have hact : Effect c.session.owner c.session.has_upload c.world _ :=
    .fetch c.world Stream.capacity ha.owner
  cases h with
  | pending some => exact .refl c
  | taken peak empty le read =>
    refine .single rfl rfl ?_
    simpa [world, returned, put_to_peer, set_stream, stream, read, le] using hact
  | overlong lt read =>
    refine .single rfl rfl ?_
    simpa [world, read, not_le.mpr lt] using hact

theorem Emitted.effects (h : Emitted c c') : Effects c c' := by
  cases h with
  | nothing empty => exact .refl c
  | busy busy => exact .of_world rfl rfl rfl
  | framed idle some => exact .single rfl rfl (.note c.world _ rfl (by simp [by_token]))

theorem inward_effects (h : Alive c) : Effects c c.inward.state := by
  obtain ⟨c₁, hpulled, hpushed⟩ := inward_halves c
  exact hpulled.effects.trans (hpushed.effects ((hpulled.pumps h).alive h))

theorem outward_effects (h : Alive c) : Effects c c.outward.state := by
  have hin := inward_effects h
  have halive := (inward_pumps h).alive h
  rcases outward_halves h with ⟨_, hfetched⟩ | ⟨_, c₁, hfetched, _, hemitted⟩
  · exact hin.trans (hfetched.effects halive)
  · exact (hin.trans (hfetched.effects halive)).trans hemitted.effects

/-- The channel's own end of a tenure is a release. -/
theorem retired_effects (h : Alive c) : Effects c c.retired := by
  refine .single rfl rfl ?_
  have hact : Effect c.session.owner c.session.has_upload c.world _ :=
    .release c.world h.inv.token h.owner
  simpa [world, retired, set_stream, Channel.retire, Channel.call_closed, Channel.call_discard,
    Channel.record, ending] using hact

/-- A pump moves bytes both ways, and ends the session where a call has failed. -/
theorem pump_effects (h : Alive c) (now : UInt32) : Effects c (c.pump now) := by
  have hway := pump_way h now
  generalize c.pump now = c' at hway ⊢
  cases hway with
  | went ok stream_at session_at credited => exact (outward_effects h).trans (.of_world rfl rfl rfl)
  | failed c₁ stopped =>
    -- the tenure ends where the pump stopped, and the session with it
    have hstopped : Alive c₁ ∧ Effects c c₁ := by
      rcases stopped with rfl | rfl | ⟨_, rfl⟩
      · exact ⟨h, .refl _⟩
      · exact ⟨(inward_pumps h).alive h, inward_effects h⟩
      · exact ⟨(outward_pumps h).alive h, outward_effects h⟩
    exact (hstopped.2.trans (retired_effects hstopped.1)).trans (finish_effects _ _)

/-! ## The poll -/

theorem flush_effects (c : Ctx β υ) (input : PollInput) : Effects c (c.flush input) := by
  unfold flush
  split
  · exact .refl c
  simp only
  split
  · exact finish_effects c _
  · exact .single rfl rfl (.note c.world _ rfl (by simp [by_token]))

theorem receive_effects (c : Ctx β υ) (input : PollInput) : Effects c (c.receive input) := by
  unfold receive
  split
  · exact .refl c
  simp only
  split
  · exact finish_effects c _
  split
  · exact .refl c
  split
  · exact .single rfl rfl (.note c.world _ rfl (by simp [by_token]))
  · exact .of_world rfl rfl rfl

theorem Move.effects {input : PollInput} (h : Move input c c') (hi : Inv c.config)
    (hrun : c.session.result = .running) : Effects c c' := by
  cases h with
  | flush => exact flush_effects c input
  | pump owned => exact pump_effects ⟨hi, hrun, owned⟩ _
  | turn => exact .of_world rfl rfl rfl
  | finish ended => exact finish_effects c _

/-- **A poll is a run of effects**, each made after its check. -/
theorem poll_effects (hi : Inv c.config) (input : PollInput) : Effects c (c.poll input) :=
  (poll_polls hi input).rule .refl .trans (fun hi hrun hmove => hmove.effects hi hrun)
    (fun _ _ => receive_effects _ input) (fun _ => dispatch_effects _ _ _)

end Ctx

/-! ## Whole systems -/

/-- What the sessions of a system share, seen by no session in particular. -/
def System.world (sys : System β υ) : World β υ :=
  ⟨sys.channel.stream.owner, sys.channel.backend, sys.upload, sys.channel.history, false⟩

/-- A rule about what sessions share. `A` is what is known of whether a session has
the service. -/
structure WorldRule (A : Bool → Prop) (I : World β υ → Prop) : Prop where
  effect : ∀ {t : UInt32} {attached : Bool} {w w' : World β υ}, t ≠ 0 → A attached →
    Effect t attached w w' → I w → I w'
  /-- It does not matter which session looks. -/
  anyone : ∀ {w : World β υ} (released : Bool), I w → I { w with released := released }

namespace System

variable {A : Bool → Prop} {I : World β υ → Prop}

/-- What a rule is about: a system in order, whose sessions are as known. -/
structure Shares (A : Bool → Prop) (I : World β υ → Prop) (sys : System β υ) : Prop where
  ok : Ok sys
  known : ∀ {t s}, sys.sessions t = some s → A s.has_upload
  world : I sys.world

/-- A rule about nothing, for what every run keeps. -/
theorem ok_rule : Rule (fun _ => True) (fun _ => True) where
  start := trivial
  act := fun _ _ _ _ => ⟨trivial, trivial⟩
  other := fun _ _ _ _ => trivial
  fresh := fun _ _ _ _ => trivial
  created := fun _ _ => trivial

variable {sys : System β υ}

theorem Ok.step (h : Ok sys) (o : Op β υ) : Ok (sys.step o) :=
  (ok_rule.step ⟨h, fun _ => trivial, trivial⟩ o).ok

variable (rule : WorldRule A I)
include rule

/-- A method that is a run of effects keeps what the rule is about. -/
theorem on_shares (h : Shares A I sys) (t : UInt32) {m : Ctx β υ → Ctx β υ}
    (hm : ∀ {c : Ctx β υ}, Inv c.config → Ctx.Effects c (m c)) :
    I (sys.on t m).world ∧ ∀ {u s}, (sys.on t m).sessions u = some s → A s.has_upload := by
  unfold System.on
  split
  · exact ⟨h.world, h.known⟩
  next s hs =>
  have hi := h.ok.inv hs
  have heffects := hm (c := sys.ctx s) hi
  refine ⟨?_, ?_⟩
  · have hsteps : I (m (sys.ctx s)).world := by
      refine Runs.actions_invariant ?_ heffects.steps (rule.anyone s.upload_released h.world)
      exact fun w w' hw => rule.effect hi.token (h.known hs) hw
    exact rule.anyone false hsteps
  · intro u v hv
    rcases update_eq_some hv with ⟨-, rfl⟩ | ⟨-, hv⟩
    · rw [heffects.attached]
      exact h.known hs
    · exact h.known hv

/-- **A call on a session keeps what the rule is about.** -/
theorem Shares.poll (h : Shares A I sys) (t : UInt32) (input : PollInput) :
    Shares A I (sys.step (.poll t input)) :=
  have hon := on_shares rule h t (m := (·.poll input)) fun hi => Ctx.poll_effects hi input
  ⟨h.ok.step _, hon.2, hon.1⟩

theorem Shares.close (h : Shares A I sys) (t : UInt32) : Shares A I (sys.step (.close t)) :=
  have hon := on_shares rule h t (m := Ctx.close) fun _ => Ctx.close_effects _
  ⟨h.ok.step _, hon.2, hon.1⟩

theorem Shares.destroy (h : Shares A I sys) (t : UInt32) : Shares A I (sys.step (.destroy t)) :=
  have hon := on_shares rule h t (m := Ctx.close) fun _ => Ctx.close_effects _
  ⟨h.ok.step _, fun hv => hon.2 (update_none_eq_some hv).2, hon.1⟩

omit rule in
/-- A new session, if what is shared may hear of it. -/
theorem Shares.construct (h : Shares A I sys) (t now : UInt32) (identity : Identity) (has_upload : Bool)
    (hA : A has_upload) (hcreated : I { sys.world with history := sys.world.history ++ [.created t] }) :
    Shares A I (sys.step (.construct t now identity has_upload)) := by
  refine ⟨h.ok.step _, ?_, ?_⟩
  · intro u v hv
    simp only [System.step] at hv
    split at hv
    · exact h.known hv
    · rcases update_eq_some hv with ⟨-, rfl⟩ | ⟨-, hv⟩
      · cases has_upload <;> exact hA
      · exact h.known hv
  · simp only [System.step]
    split
    · exact h.world
    · exact hcreated

end System

end Firmingo
