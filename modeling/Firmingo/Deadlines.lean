/-
The deadlines of a session, in real time.

The device's clock is a 32-bit counter of milliseconds that wraps. A session compares
differences of it with four bounds: for the hello, for a frame to be complete, for something
to move, and for the error after malformed JSON to be flushed. Real time does not wrap; a
`Watch` notes the real times a session's bounds are about, from what can be seen of its polls.
As long as polls are less than 2^31 ms apart, the differences the session computes are the real
ones, so it ends exactly when a bound is reached, whatever trickles in.
-/
import Firmingo.Exclusion
import Firmingo.PollClocks

set_option autoImplicit false

open Octets

namespace Firmingo

open Protocol Machine

variable {β υ : Type}

/-! ## Real time -/

/-- The device's clock at a real time, and the difference of two of its values. -/
theorem elapsed_eq {a b : ℕ} (hle : b ≤ a) (hlt : a < b + 2 ^ 32) :
    (UInt32.ofNat a - UInt32.ofNat b).toNat = a - b := by
  rw [UInt32.toNat_sub, UInt32.toNat_ofNat', UInt32.toNat_ofNat']
  omega

/-- The real times that one session's bounds are about: its construction, its last poll, the
last poll in which a byte moved, the poll that read the first byte of a frame, and the malformed
request. -/
structure Watch where
  constructed : ℕ := 0
  last : ℕ := 0
  progress : ℕ := 0
  frame : ℕ := 0
  malformed : ℕ := 0

/-- The bounds hold at a real time. -/
structure Watch.Within (w : Watch) (time : ℕ) (s : Session) : Prop where
  hello : s.negotiated = false → s.closing = false → time < w.constructed + 5000
  frame : s.decoder.started = true → s.decoder.state = .incomplete → time < w.frame + 5000
  idle : s.negotiated = true → s.closing = false → time < w.progress + 30000
  flush : s.closing = true → time < w.malformed + 1000

section Generic

variable {τ ο : Type} [StreamBackend β] [UploadService υ] (io : ByteIO τ) (serve : υ → ο → υ)

/-- What can happen, in real time: calls on sessions, each poll with a transport in any state,
changes of the backend, and moves of the upload service by itself. -/
inductive TimedOp (τ β ο : Type)
  | construct (owner : UInt32) (time : ℕ) (identity : Identity) (has_upload : Bool)
  | poll (owner : UInt32) (time : ℕ) (memory : Option MemorySamples) (transport : τ)
  | close (owner : UInt32)
  | destroy (owner : UInt32)
  | backend (b : β)
  | service (move : ο)

namespace System

/-- One of these. -/
def timed_step (sys : System β υ) : TimedOp τ β ο → System β υ
  | .construct owner time identity has_upload =>
    sys.step (.construct owner (.ofNat time) identity has_upload)
  | .poll owner time memory transport =>
    sys.on owner fun c => (c.poll_on io (.ofNat time) memory transport).2
  | .close owner => sys.step (.close owner)
  | .destroy owner => sys.step (.destroy owner)
  | .backend b => sys.step (.backend b)
  | .service move => sys.step (.upload (serve sys.upload move))

end System

/-- What a poll shows of a session. -/
def Watch.poll (w : Watch) (time : ℕ) (memory : Option MemorySamples) (transport : τ) (c : Ctx β υ) :
    Watch :=
  let bytes := c.taken (c.answers io (.ofNat time) memory transport)
  let c' := (c.poll_on io (.ofNat time) memory transport).2
  { w with
    last := time
    progress := if c.moved c' || bytes ≠ [] then time else w.progress
    frame := if !c.session.decoder.started && bytes ≠ [] then time else w.frame
    malformed := if !c.session.closing && c'.session.closing then time else w.malformed }

/-- What is seen of the session with token `t`. -/
def Watch.see (t : UInt32) (sys : System β υ) (w : Watch) : TimedOp τ β ο → Watch
  | .construct owner time _ _ =>
    if owner = t && (sys.sessions t).isNone then ⟨time, time, time, time, time⟩ else w
  | .poll owner time memory transport =>
    match sys.sessions t with
    | some s => if owner = t then w.poll io time memory transport (sys.ctx s) else w
    | none => w
  | _ => w

/-- The polls of session `t` are in order and less than 2^31 ms apart. -/
def TimedOp.Paced (t : UInt32) (w : Watch) : TimedOp τ β ο → Prop
  | .poll owner time _ _ => owner = t → w.last ≤ time ∧ time < w.last + 2 ^ 31
  | _ => True

/-- The runs of a device, with what is seen of session `t`. -/
inductive Timed (t : UInt32) (b : β) (u : υ) : System β υ → Watch → Prop
  | start : Timed t b u (.initial b u) {}
  | step {sys : System β υ} {w : Watch} (m : TimedOp τ β ο) : Timed t b u sys w → m.Paced t w →
      Timed t b u (sys.timed_step io serve m) (w.see io t sys m)

/-! ## The session's clocks and the real ones -/

/-- What a session that still runs knows of the real times: its clocks show them, and no bound
was reached at its last poll. Its time of progress may be earlier than the last byte that
moved, never later. -/
structure Watch.Clock (w : Watch) (s : Session) : Prop where
  started_at : s.started_at = .ofNat w.constructed
  progress : ∃ p, s.progress_at = .ofNat p ∧ w.constructed ≤ p ∧ p ≤ w.progress ∧
    (s.negotiated = true → s.closing = false → w.last < p + 30000)
  progress_le : w.progress ≤ w.last
  hello : s.negotiated = false → s.closing = false → w.last < w.constructed + 5000
  frame : s.decoder.started = true → s.decoder.state = .incomplete →
    s.frame_at = .ofNat w.frame ∧ w.frame ≤ w.last ∧ w.last < w.frame + 5000
  flush : s.closing = true →
    s.closing_at = .ofNat w.malformed ∧ w.malformed ≤ w.last ∧ w.last < w.malformed + 1000

theorem Watch.Clock.within {w : Watch} {s : Session} (h : w.Clock s) : w.Within w.last s := by
  obtain ⟨p, _, _, hle, hidle⟩ := h.progress
  refine ⟨h.hello, fun hs hi => (h.frame hs hi).2.2, fun hn hc => ?_, fun hc => (h.flush hc).2.2⟩
  have := hidle hn hc
  omega

/-- What the session tests before any call of the transport. -/
structure Session.Early (s : Session) (now : UInt32) : Prop where
  hello : s.negotiated = false → s.closing = false → (now - s.started_at).toNat < 5000
  frame : s.decoder.started = true → s.decoder.state = .incomplete → s.closing = false →
    (now - s.frame_at).toNat < 5000
  idle : s.negotiated = true → s.closing = false → (now - s.progress_at).toNat < 30000
  flush : s.closing = true → (now - s.closing_at).toNat < 1000

omit [StreamBackend β] [UploadService υ] in
/-- A poll that goes on found no bound reached. -/
theorem Ctx.expired_early {c : Ctx β υ} {now : UInt32} (h : c.expired now = none) :
    c.session.Early now := by
  have hms : Session.handshake_ms.toNat = 5000 ∧ Session.frame_ms.toNat = 5000 ∧
      Session.idle_ms.toNat = 30000 ∧ Session.error_flush_ms.toNat = 1000 := by decide
  unfold Ctx.expired at h
  simp only at h
  split at h
  · next hclosing =>
    split at h
    · cases h
    next hlate =>
    simp only [ge_iff_le, Bool.or_eq_true, decide_eq_true_eq, not_or, UInt32.le_iff_toNat_le] at hlate
    refine ⟨fun _ hopen => absurd (hclosing.symm.trans hopen) (by decide),
      fun _ _ hopen => absurd (hclosing.symm.trans hopen) (by decide),
      fun _ hopen => absurd (hclosing.symm.trans hopen) (by decide), fun _ => ?_⟩
    omega
  · next hopen =>
    split at h
    · cases h
    next hlate =>
    simp only [ge_iff_le, Bool.or_eq_true, Bool.and_eq_true, Bool.not_eq_true', decide_eq_true_eq, not_or,
      not_and, UInt32.le_iff_toNat_le] at hlate
    obtain ⟨⟨hhello, hidle⟩, hframe⟩ := hlate
    refine ⟨fun hn _ => ?_, fun hs hi _ => ?_, fun hn _ => ?_, fun hclosing => absurd hclosing hopen⟩
    · have := hhello hn
      omega
    · have := hframe ⟨hs, hi⟩
      omega
    · have := hidle hn
      omega

section Clock

variable {w : Watch} {time : ℕ}

/-- Between two polls that are not too far apart, a difference of clocks is the real one. -/
theorem early_iff {x bound : ℕ} (hle : x ≤ w.last) (hlt : w.last < x + 30000) (hpaced : w.last ≤ time)
    (hpaced' : time < w.last + 2 ^ 31) :
    (UInt32.ofNat time - UInt32.ofNat x).toNat < bound ↔ time < x + bound := by
  rw [elapsed_eq (by omega) (by omega)]
  omega

/-- A session that is not expired is within its bounds. -/
theorem Watch.Clock.within_of_early {s : Session} (h : w.Clock s) (hsound : s.Sound)
    (hpaced : w.last ≤ time) (hpaced' : time < w.last + 2 ^ 31) (hearly : s.Early (.ofNat time)) :
    w.Within time s := by
  obtain ⟨p, hp, hge, hle, hidle⟩ := h.progress
  have hlast := h.progress_le
  refine ⟨fun hn hc => ?_, fun hs hi => ?_, fun hn hc => ?_, fun hc => ?_⟩
  · have hsoon := hearly.hello hn hc
    have hbefore := h.hello hn hc
    rw [h.started_at] at hsoon
    exact (early_iff (by omega) (by omega) hpaced hpaced').mp hsoon
  · have hc : s.closing = false := by
      by_contra hclosing
      have := hsound.unstarted (by simpa using hclosing)
      exact absurd (hs.symm.trans this) (by decide)
    have hsoon := hearly.frame hs hi hc
    obtain ⟨hat, hfle, hbefore⟩ := h.frame hs hi
    rw [hat] at hsoon
    exact (early_iff hfle (by omega) hpaced hpaced').mp hsoon
  · have hsoon := hearly.idle hn hc
    have hbefore := hidle hn hc
    rw [hp] at hsoon
    have := (early_iff (by omega) (by omega) hpaced hpaced').mp hsoon
    omega
  · have hsoon := hearly.flush hc
    obtain ⟨hat, hfle, hbefore⟩ := h.flush hc
    rw [hat] at hsoon
    exact (early_iff hfle (by omega) hpaced hpaced').mp hsoon

/-- A new session. -/
theorem Watch.Clock.construct (identity : Identity) (owner : UInt32) (target : Option UploadTarget) :
    Watch.Clock ⟨time, time, time, time, time⟩
      (Session.construct identity owner (.ofNat time) target) where
  started_at := rfl
  progress := ⟨time, rfl, le_rfl, le_rfl, fun _ _ => by simp⟩
  progress_le := le_rfl
  hello _ _ := by simp
  frame h := by cases h
  flush h := by cases h

/-- **A poll keeps the clocks**, if the session still runs. -/
theorem Watch.Clock.poll {memory : Option MemorySamples} {transport : τ} {c : Ctx β υ}
    (h : w.Clock c.session) (hsound : c.session.Sound) (hpaced : w.last ≤ time)
    (hpaced' : time < w.last + 2 ^ 31)
    (hkept : Ctx.Kept (c.answers io (.ofNat time) memory transport) c
      (c.poll_on io (.ofNat time) memory transport).2) :
    (w.poll io time memory transport c).Clock (c.poll_on io (.ofNat time) memory transport).2.session := by
  have hearly : c.session.Early (.ofNat time) := Ctx.expired_early hkept.unexpired
  have hwithin := h.within_of_early hsound hpaced hpaced' hearly
  unfold Watch.poll
  simp only
  generalize (c.poll_on io (.ofNat time) memory transport).2 = c' at hkept ⊢
  generalize hinput : c.answers io (.ofNat time) memory transport = input at hkept ⊢
  have hnow : input.now = .ofNat time := by rw [← hinput]; rfl
  have hlast := h.progress_le
  have hopen : c'.session.closing = false → c.session.closing = false := by
    intro hc'
    rcases hkept.closing with ⟨hc, _⟩ | ⟨hc, _⟩
    · exact hc.symm.trans hc'
    · exact hc
  refine ⟨hkept.started_at.trans h.started_at, ?_, ?_, ?_, ?_, ?_⟩
  · -- progress: credited now, or not since `p`
    obtain ⟨p, hp, hge, hle, hidle⟩ := h.progress
    rcases hkept.progress with hsame | ⟨hat, hmoved⟩
    · refine ⟨p, hsame.trans hp, hge, ?_, ?_⟩
      · dsimp only
        split
        · omega
        · exact hle
      · intro _ hc'
        change time < p + 30000
        have hc := hopen hc'
        cases hn : c.session.negotiated with
        | true =>
          have hsoon := hearly.idle hn hc
          have hbefore := hidle hn hc
          rw [hp] at hsoon
          exact (early_iff (by omega) (by omega) hpaced hpaced').mp hsoon
        | false =>
          have := hwithin.hello hn hc
          omega
    · refine ⟨time, hat.trans hnow, ?_, ?_, fun _ _ => by simp⟩
      · change w.constructed ≤ time
        omega
      · dsimp only
        rw [if_pos]
        simpa using hmoved
  · dsimp only
    split
    · exact le_rfl
    · omega
  · intro hn' hc'
    refine hwithin.hello ?_ (hopen hc')
    by_contra hn
    have := hkept.negotiated (by simpa using hn)
    exact absurd (hn'.symm.trans this) (by decide)
  · intro hs' hi'
    rcases hkept.frame hs' hi' with ⟨hs, hi, hat⟩ | ⟨hs, hsome, hat⟩
    · dsimp only
      rw [if_neg (by simp [hs])]
      obtain ⟨hframe, hfle, _⟩ := h.frame hs hi
      exact ⟨hat.trans hframe, by omega, hwithin.frame hs hi⟩
    · dsimp only
      rw [if_pos (by simp [hs, hsome])]
      exact ⟨hat.trans hnow, le_rfl, by simp⟩
  · intro hc'
    rcases hkept.closing with ⟨hc, hat⟩ | ⟨hc, _, hat⟩
    · have hclosing := hc.symm.trans hc'
      dsimp only
      rw [if_neg (by simp [hclosing])]
      obtain ⟨hflush, hfle, _⟩ := h.flush hclosing
      exact ⟨hat.trans hflush, by omega, hwithin.flush hclosing⟩
    · dsimp only
      rw [if_pos (by simp [hc, hc'])]
      exact ⟨hat.trans hnow, le_rfl, by simp⟩

end Clock

/-! ## Uploads that are left behind -/

/-- What "an uncommitted upload of `t`" must be for a service: a disconnect leaves none, and
neither another owner's calls nor the service itself make one. -/
structure Parting (holds : υ → UInt32 → Prop) : Prop where
  disconnect : ∀ (u : υ) (t : UInt32), ¬ holds (UploadService.disconnect u t) t
  leave : ∀ (u : υ) (t t' : UInt32), holds (UploadService.disconnect u t) t' → holds u t'
  call : ∀ (u : υ) (t t' : UInt32) (call : UploadCall), t' ≠ t → holds (call.run u t).2 t' → holds u t'
  serve : ∀ (u : υ) (move : ο) (t : UInt32), holds (serve u move) t → holds u t

section Orderly

variable {serve} {holds : υ → UInt32 → Prop} {c c' : Ctx β υ}

/-- Another session's effects leave no upload of this one. -/
theorem Parting.other (h : Parting serve holds) {t : UInt32} (hne : t ≠ c.session.owner)
    (heffects : Ctx.Effects c c') (hholds : holds c'.upload t) : holds c.upload t := by
  have hkeep : ∀ {w w' : World β υ}, Effect c.session.owner c.session.has_upload w w' →
      ¬ holds w.upload t → ¬ holds w'.upload t := by
    intro w w' heffect hnot
    cases heffect with
    | call call has free => exact fun hh => hnot (h.call _ _ _ call hne hh)
    | disconnect has first => exact fun hh => hnot (h.leave _ _ _ hh)
    | _ => exact hnot
  by_contra hnot
  exact Runs.actions_invariant (P := fun w : World β υ => ¬ holds w.upload t)
    (fun _ _ hw => hkeep hw) heffects.steps hnot hholds

/-- A session without the service leaves it alone. -/
theorem Ctx.Effects.upload_eq (heffects : Ctx.Effects c c') (hnone : c.session.has_upload = false) :
    c'.upload = c.upload := by
  have hkeep : ∀ {w w' : World β υ}, Effect c.session.owner c.session.has_upload w w' →
      w.upload = c.upload → w'.upload = c.upload := by
    intro w w' heffect hw
    cases heffect with
    | call call has free => exact absurd (has.symm.trans hnone) (by decide)
    | disconnect has first => exact absurd (has.symm.trans hnone) (by decide)
    | _ => exact hw
  exact Runs.actions_invariant (P := fun w : World β υ => w.upload = c.upload)
    (fun _ _ hw => hkeep hw) heffects.steps rfl

/-- Every session is sound, and only a session that has not left may have an upload. -/
structure System.Orderly (holds : υ → UInt32 → Prop) (sys : System β υ) : Prop where
  ok : sys.Ok
  sound : ∀ {t s}, sys.sessions t = some s → s.Sound
  parted : ∀ {t s}, sys.sessions t = some s → s.upload_released = true ∨ s.has_upload = false →
    ¬ holds sys.upload t
  absent : ∀ {t}, sys.sessions t = none → ¬ holds sys.upload t

/-- What a method of a session must do. -/
structure Ctx.Proper (c c' : Ctx β υ) : Prop where
  acts : Acts c.config c'.config
  effects : Ctx.Effects c c'
  sound : c'.session.Sound
  parted : Ctx.Parted c c'

theorem Ctx.poll_proper (hi : Inv c.config) (hsound : c.session.Sound) (input : PollInput) :
    Ctx.Proper c (c.poll input) :=
  have h := Ctx.poll_sound hi hsound input
  ⟨Ctx.poll_acts hi input, Ctx.poll_effects hi input, h.1, h.2⟩

theorem Ctx.close_ended (c : Ctx β υ) : c.close.session.result ≠ .running := by
  change (if c.session.result = .running then .closed else c.session.result) ≠ SessionResult.running
  by_cases hr : c.session.result = .running
  · rw [if_pos hr]
    decide
  · rw [if_neg hr]
    exact hr

theorem Ctx.close_proper (hi : Inv c.config) : Ctx.Proper c c.close := by
  have hparted := Ctx.let_go_parted c
  refine ⟨Ctx.close_acts hi, Ctx.close_effects c, ⟨?_, fun _ => rfl⟩, hparted.silent, hparted.told⟩
  exact fun hrun => absurd hrun c.close_ended

/-- What a session leaves behind, if it has left. -/
theorem Ctx.Proper.left (h : Ctx.Proper c c') (hparting : Parting serve holds)
    (hbefore : c.session.upload_released = true ∨ c.session.has_upload = false →
      ¬ holds c.upload c.session.owner)
    (hafter : c'.session.upload_released = true ∨ c'.session.has_upload = false) :
    ¬ holds c'.upload c.session.owner := by
  cases has : c.session.has_upload with
  | false =>
    rw [h.effects.upload_eq has]
    exact hbefore (.inr has)
  | true =>
    have hreleased : c'.session.upload_released = true := by
      rcases hafter with hr | hnone
      · exact hr
      · rw [h.effects.attached, has] at hnone
        cases hnone
    cases hr : c.session.upload_released with
    | true =>
      rw [(h.parted.silent hr).2]
      exact hbefore (.inl hr)
    | false =>
      obtain ⟨u, hu⟩ := h.parted.told hr hreleased has
      rw [hu]
      exact hparting.disconnect u _

namespace System

variable {sys : System β υ}

/-- A method of a session parts from the service in order, and touches no other's upload. -/
theorem Orderly.put (h : Orderly holds sys) (hparting : Parting serve holds) {t : UInt32} {s : Session}
    (hs : sys.sessions t = some s) {c' : Ctx β υ} (hproper : Ctx.Proper (sys.ctx s) c') :
    Orderly holds (sys.put t c') := by
  have howner : (sys.ctx s).session.owner = t := h.ok.token hs
  refine ⟨h.ok.put hs hproper.acts, ?_, ?_, ?_⟩
  · intro u v hv
    rcases update_eq_some hv with ⟨-, rfl⟩ | ⟨-, hv⟩
    · exact hproper.sound
    · exact h.sound hv
  · intro u v hv hleft
    rcases update_eq_some hv with ⟨rfl, rfl⟩ | ⟨hne, hv⟩
    · have hgone := hproper.left hparting (fun hbefore => by rw [howner]; exact h.parted hs hbefore) hleft
      rw [howner] at hgone
      exact hgone
    · exact fun hh => h.parted hv hleft (hparting.other (by rw [howner]; exact hne) hproper.effects hh)
  · intro u hu
    have hne : u ≠ t := by
      rintro rfl
      simp [System.put] at hu
    have hnone : sys.sessions u = none := by
      rw [← hu]
      exact (Function.update_of_ne hne ..).symm
    exact fun hh => h.absent hnone (hparting.other (by rw [howner]; exact hne) hproper.effects hh)

theorem Orderly.on (h : Orderly holds sys) (hparting : Parting serve holds) (t : UInt32)
    {m : Ctx β υ → Ctx β υ}
    (hm : ∀ {c : Ctx β υ}, Inv c.config → c.session.Sound → Ctx.Proper c (m c)) :
    Orderly holds (sys.on t m) := by
  unfold System.on
  split
  · exact h
  next s hs => exact h.put hparting hs (hm (h.ok.inv hs) (h.sound hs))

theorem Orderly.close (h : Orderly holds sys) (hparting : Parting serve holds) (t : UInt32) :
    Orderly holds (sys.step (.close t)) :=
  h.on hparting t fun hi _ => Ctx.close_proper hi

/-- A session that is destroyed leaves no uncommitted upload behind. -/
theorem Orderly.destroy (h : Orderly holds sys) (hparting : Parting serve holds) (t : UInt32) :
    Orderly holds (sys.step (.destroy t)) := by
  have hclosed := h.close hparting t
  refine ⟨h.ok.step _, fun hv => hclosed.sound (update_none_eq_some hv).2,
    fun hv => hclosed.parted (update_none_eq_some hv).2, ?_⟩
  intro u hu
  change ¬ holds (sys.step (.close t)).upload u
  by_cases hut : u = t
  · subst hut
    -- the session is closed, so it has left
    cases hs : sys.sessions u with
    | none =>
      refine hclosed.absent ?_
      simp [System.step, System.on, hs]
    | some s =>
      refine hclosed.parted (s := (Ctx.close (sys.ctx s)).session) ?_ (.inl rfl)
      simp [System.step, System.on, hs, System.put]
  · refine hclosed.absent ?_
    rw [← hu]
    exact (Function.update_of_ne hut ..).symm

/-- A new session starts with nothing to part from. -/
theorem Orderly.construct (h : Orderly holds sys) (t now : UInt32) (identity : Identity)
    (has_upload : Bool) : Orderly holds (sys.step (.construct t now identity has_upload)) := by
  refine ⟨h.ok.step _, ?_, ?_, ?_⟩
  · intro u v hv
    simp only [System.step] at hv
    split at hv
    · exact h.sound hv
    · rcases update_eq_some hv with ⟨-, rfl⟩ | ⟨-, hv⟩
      · exact ⟨fun _ hr => (by cases hr), fun hc => (by cases hc)⟩
      · exact h.sound hv
  · intro u v hv hleft
    simp only [System.step] at hv ⊢
    split
    · next hskip =>
      rw [if_pos hskip] at hv
      exact h.parted hv hleft
    · next hnew =>
      rw [if_neg hnew] at hv
      change ¬ holds sys.upload u
      rcases update_eq_some hv with ⟨rfl, -⟩ | ⟨-, hv⟩
      -- a session that does not exist yet holds no upload
      · refine h.absent ?_
        simp only [Bool.or_eq_true, not_or, Bool.not_eq_true, Option.isSome_eq_false_iff,
          Option.isNone_iff_eq_none] at hnew
        exact hnew.2
      · exact h.parted hv hleft
  · intro u hu
    simp only [System.step] at hu ⊢
    split
    · next hskip =>
      rw [if_pos hskip] at hu
      exact h.absent hu
    · next hnew =>
      rw [if_neg hnew] at hu
      change ¬ holds sys.upload u
      have hne : u ≠ t := by
        rintro rfl
        simp [System.enter, Session.construct] at hu
      refine h.absent ?_
      rw [← hu]
      exact (Function.update_of_ne hne ..).symm

/-- What every step keeps. -/
theorem Orderly.timed_step (h : Orderly holds sys) (hparting : Parting serve holds) (m : TimedOp τ β ο) :
    Orderly holds (sys.timed_step io serve m) := by
  cases m with
  | construct owner time identity has_upload => exact h.construct owner _ identity has_upload
  | poll owner time memory transport =>
    refine h.on (m := fun c => (c.poll_on io (.ofNat time) memory transport).2) hparting owner ?_
    intro c hi hsound
    rw [Ctx.poll_on_state]
    exact Ctx.poll_proper hi hsound _
  | close owner => exact h.close hparting owner
  | destroy owner => exact h.destroy hparting owner
  | backend b => exact ⟨h.ok.step (.backend b), h.sound, h.parted, h.absent⟩
  | service move =>
    exact ⟨h.ok.step (.upload (serve sys.upload move)), h.sound,
      fun hs hleft hh => h.parted hs hleft (hparting.serve _ _ _ hh),
      fun hs hh => h.absent hs (hparting.serve _ _ _ hh)⟩

end System

/-! ## Whole runs -/

/-- The watch of `t` shows the clocks of its session. -/
def System.Watched (t : UInt32) (sys : System β υ) (w : Watch) : Prop :=
  ∀ s, sys.sessions t = some s → s.result = .running → w.Clock s

section Watched

variable {t : UInt32} {sys : System β υ} {w : Watch}

omit [StreamBackend β] [UploadService υ] in
/-- A call on a session: what it is for `t` itself, and that it is nothing to `t` otherwise. -/
theorem System.Watched.on (h : sys.Watched t w) {w' : Watch} {owner : UInt32} {m : Ctx β υ → Ctx β υ}
    (hown : owner = t → ∀ s, sys.sessions t = some s → (m (sys.ctx s)).session.result = .running →
      w'.Clock (m (sys.ctx s)).session)
    (hother : owner ≠ t ∨ sys.sessions t = none → w' = w) : (sys.on owner m).Watched t w' := by
  intro s hs hrun
  unfold System.on at hs
  split at hs
  · next hnone =>
    by_cases hne : owner = t
    · rw [hne] at hnone
      rw [hnone] at hs
      cases hs
    · rw [hother (.inl hne)]
      exact h s hs hrun
  · next s0 hs0 =>
    rcases System.update_eq_some hs with ⟨rfl, rfl⟩ | ⟨hne, hs⟩
    · exact hown rfl s0 hs0 hrun
    · rw [hother (.inl (Ne.symm hne))]
      exact h s hs hrun

/-- The clocks of a new session start at its construction. -/
theorem System.Watched.construct (h : sys.Watched t w) (owner : UInt32) (time : ℕ) (identity : Identity)
    (has_upload : Bool) :
    (sys.step (.construct owner (.ofNat time) identity has_upload)).Watched t
      (if owner = t && (sys.sessions t).isNone then ⟨time, time, time, time, time⟩ else w) := by
  intro s hs hrun
  simp only [System.step] at hs
  split at hs
  · next hskip =>
    rw [if_neg]
    · exact h s hs hrun
    · simp [hs]
  · next hnew =>
    rcases System.update_eq_some hs with ⟨rfl, rfl⟩ | ⟨hne, hs⟩
    · rw [if_pos]
      · exact Watch.Clock.construct _ _ _
      · simp only [Bool.or_eq_true, not_or, Bool.not_eq_true, Option.isSome_eq_false_iff] at hnew
        simpa [Session.construct] using hnew.2
    · rw [if_neg]
      · exact h s hs hrun
      · simp [hs]

/-- Whatever happens, what is seen of session `t` tells its clocks. -/
theorem System.Watched.timed_step (h : sys.Watched t w) (hok : Orderly holds sys) (m : TimedOp τ β ο)
    (hpaced : m.Paced t w) : (sys.timed_step io serve m).Watched t (w.see io t sys m) := by
  cases m with
  | construct owner time identity has_upload => exact h.construct owner time identity has_upload
  | poll owner time memory transport =>
    refine System.Watched.on h (m := fun c => (c.poll_on io (.ofNat time) memory transport).2) ?_ ?_
    · rintro rfl s hs hrun
      obtain ⟨hle, hlt⟩ := hpaced rfl
      have hi := hok.ok.inv hs
      have hsound := hok.sound hs
      have hkept : Ctx.Kept ((sys.ctx s).answers io (.ofNat time) memory transport) (sys.ctx s)
          ((sys.ctx s).poll_on io (.ofNat time) memory transport).2 := by
        rw [Ctx.poll_on_state] at hrun ⊢
        exact Ctx.poll_kept hi hsound hrun
      simp only [Watch.see, hs, if_true]
      exact (h s hs hkept.running).poll io hsound hle hlt hkept
    · intro hother
      simp only [Watch.see]
      split
      · next s hs =>
        rw [if_neg]
        rcases hother with hne | hnone
        · exact hne
        · rw [hs] at hnone
          cases hnone
      · rfl
  | close owner =>
    exact System.Watched.on h (fun _ s _ hrun => absurd hrun (Ctx.close_ended _)) fun _ => rfl
  | destroy owner =>
    have hclosed : (sys.on owner Ctx.close).Watched t w :=
      System.Watched.on h (fun _ s _ hrun => absurd hrun (Ctx.close_ended _)) fun _ => rfl
    exact fun s hs hrun => hclosed s (System.update_none_eq_some hs).2 hrun
  | backend b => exact h
  | service move => exact h

end Watched

end Orderly

section Timed

variable {serve} {holds : υ → UInt32 → Prop} {io} {t : UInt32} {b : β} {u : υ} {sys : System β υ} {w : Watch}

/-- What every run keeps. -/
theorem Timed.invariant (hparting : Parting serve holds) (hfresh : ∀ t, ¬ holds u t)
    (h : Timed io serve t b u sys w) : sys.Orderly holds ∧ sys.Watched t w := by
  induction h with
  | start =>
    refine ⟨⟨?_, ?_, ?_, fun _ => hfresh _⟩, ?_⟩
    · exact (System.ok_rule.after b u []).ok
    · intro t s hs
      cases hs
    · intro t s hs
      cases hs
    · intro s hs
      cases hs
  | step m _ hpaced ih => exact ⟨ih.1.timed_step io hparting m, ih.2.timed_step io ih.1 m hpaced⟩

/-- A poll of session `t` at a real time: a session that still runs is within its bounds, and
one that is not was ended before any call of the transport, with all it held let go. -/
structure Punctual (holds : υ → UInt32 → Prop) (io : ByteIO τ) (w : Watch) (time : ℕ)
    (memory : Option MemorySamples) (transport : τ) (c : Ctx β υ) : Prop where
  running : (c.poll_on io (.ofNat time) memory transport).2.session.result = .running →
    (w.poll io time memory transport c).Within time
      (c.poll_on io (.ofNat time) memory transport).2.session
  ended : ¬ w.Within time c.session →
    (c.poll_on io (.ofNat time) memory transport).1 = transport ∧
      (c.poll_on io (.ofNat time) memory transport).2.session.result ≠ .running ∧
      (c.poll_on io (.ofNat time) memory transport).2.channel.owner ≠ c.session.owner ∧
      ¬ holds (c.poll_on io (.ofNat time) memory transport).2.upload c.session.owner

/-- In every run, a poll in order and in time is punctual. -/
theorem Timed.punctual (hparting : Parting serve holds) (hfresh : ∀ t, ¬ holds u t)
    (h : Timed io serve t b u sys w) {s : Session} (hs : sys.sessions t = some s)
    (hrun : s.result = .running) {time : ℕ} (hle : w.last ≤ time) (hlt : time < w.last + 2 ^ 31)
    (memory : Option MemorySamples) (transport : τ) :
    Punctual holds io w time memory transport (sys.ctx s) := by
  obtain ⟨horderly, hwatched⟩ := h.invariant hparting hfresh
  have hi : Inv (sys.ctx s).config := horderly.ok.inv hs
  have hsound : (sys.ctx s).session.Sound := horderly.sound hs
  have hclock : w.Clock (sys.ctx s).session := hwatched s hs hrun
  have hproper : Ctx.Proper (sys.ctx s) ((sys.ctx s).poll_on io (.ofNat time) memory transport).2 := by
    rw [Ctx.poll_on_state]
    exact Ctx.poll_proper hi hsound _
  refine ⟨?_, ?_⟩
  · intro hrun'
    have hkept : Ctx.Kept ((sys.ctx s).answers io (.ofNat time) memory transport) (sys.ctx s)
        ((sys.ctx s).poll_on io (.ofNat time) memory transport).2 := by
      rw [Ctx.poll_on_state] at hrun' ⊢
      exact Ctx.poll_kept hi hsound hrun'
    exact (hclock.poll io hsound hle hlt hkept).within
  · intro hreached
    obtain ⟨result, hexpired⟩ : ∃ result, (sys.ctx s).expired (.ofNat time) = some result := by
      by_contra hnone
      have hearly := Ctx.expired_early (Option.eq_none_iff_forall_ne_some.mpr (not_exists.mp hnone))
      exact hreached (hclock.within_of_early hsound hle hlt hearly)
    obtain ⟨ending, hending, hend⟩ := Ctx.poll_on_ended io hrun hexpired memory transport
    have hi' := Acts.inv hproper.acts hi
    have howned := (hi'.terminal (by rw [hend]; exact hending)).1
    refine ⟨Ctx.poll_on_expired io _ hexpired memory transport, by rw [hend]; exact hending, ?_, ?_⟩
    · intro howner
      have := hi'.owned_iff.mpr (howner.trans (Acts.token_eq hproper.acts).symm)
      exact absurd (this.symm.trans howned) (by decide)
    · refine hproper.left hparting (fun hleft => ?_) (.inl (by rw [hend]; rfl))
      have howner : (sys.ctx s).session.owner = t := horderly.ok.token hs
      rw [howner]
      exact horderly.parted hs hleft

end Timed

end Generic

/-! ## The two services -/

namespace Managed

/-- An open record of `t` that is not committed yet. -/
def Uncommitted (owner : UInt32) (last : UploadStatus) (t : UInt32) : Prop :=
  owner = t ∧ last.id ≠ 0 ∧ (last.state = .accepted ∨ last.state = .verified)

/-- A record that nothing but a call can open. -/
structure Settles (owner owner' : UInt32) (last last' : UploadStatus) : Prop where
  owner : owner' = owner
  id : last'.id = last.id
  state : last'.state = last.state ∨ last'.state ≠ .accepted ∧ last'.state ≠ .verified

theorem Settles.uncommitted {owner owner' t : UInt32} {last last' : UploadStatus}
    (h : Settles owner owner' last last') (hu : Uncommitted owner' last' t) : Uncommitted owner last t := by
  obtain ⟨howner, hid, hstate⟩ := hu
  refine ⟨h.owner.symm.trans howner, by rw [← h.id]; exact hid, ?_⟩
  rcases h.state with hs | ⟨ha, hv⟩
  · rw [← hs]
    exact hstate
  · rcases hstate with hs | hs
    · exact absurd hs ha
    · exact absurd hs hv

namespace FmgoUpload

/-- The service has an uncommitted upload of `t`. -/
def uncommitted (u : FmgoUpload) (t : UInt32) : Prop := Uncommitted u.owner u.last t

theorem fail_settles (u : FmgoUpload) (e : UploadError) :
    Settles u.owner (u.fail e).owner u.last (u.fail e).last :=
  ⟨rfl, rfl, .inr ⟨UploadState.noConfusion, UploadState.noConfusion⟩⟩

theorem drive_settles (u : FmgoUpload) (now : UInt32) (board : Board) :
    Settles u.owner (u.drive now board).1.owner u.last (u.drive now board).1.last := by
  unfold drive
  simp only
  cases (u.switching.poll u.stage board now u.armed).1.status with
  | waiting => exact ⟨rfl, rfl, .inl rfl⟩
  | _ => exact ⟨rfl, rfl, .inr ⟨UploadState.noConfusion, UploadState.noConfusion⟩⟩

/-- A poll opens no transaction: the record stays, or closes. -/
theorem poll_settles (u : FmgoUpload) (now : UInt32) (board : Board) (returned : Bool) :
    Settles u.owner (u.poll now board returned).1.owner u.last (u.poll now board returned).1.last := by
  unfold poll
  split
  · exact ⟨rfl, rfl, .inl rfl⟩
  split
  · exact ⟨rfl, rfl, .inr ⟨UploadState.noConfusion, UploadState.noConfusion⟩⟩
  split
  · exact ⟨rfl, rfl, .inl rfl⟩
  split
  · simp only
    split
    · exact fail_settles { u with commit_pending := false } _
    split
    · next switching accesses _ =>
      exact fail_settles { u with commit_pending := false, switching := switching } _
    · next switching accesses _ =>
      exact drive_settles { u with commit_pending := false, switching := switching } now board
  · exact drive_settles u now board

theorem disconnect_parts (u : FmgoUpload) (t : UInt32) : ¬ (u.disconnect t).uncommitted t := by
  rintro ⟨howner, hid, hstate⟩
  rcases disconnect_cases u t with hsame | ha
  · rw [hsame] at howner hid hstate
    have hlast : (u.disconnect t).last.state = .aborted := by
      simp [disconnect, howner, hid, hstate]
    rw [hsame] at hlast
    rw [hlast] at hstate
    rcases hstate with hs | hs <;> cases hs
  · rw [ha.after] at hstate
    rcases hstate with hs | hs <;> cases hs

/-- An upload that is not committed goes with its owner. -/
theorem parting : Parting serve uncommitted where
  disconnect := disconnect_parts
  leave := by
    intro u t t' h
    change (u.disconnect t).uncommitted t' at h
    rcases disconnect_cases u t with hsame | ha
    · rw [hsame] at h
      exact h
    · rw [ha.after] at h
      rcases h.2.2 with hs | hs <;> cases hs
  call := by
    intro u t t' call hne h
    rcases call_changes u t call with hsame | ⟨howner, -⟩
    · rw [hsame] at h
      exact h
    · exact absurd (h.1.symm.trans howner) hne
  serve := by
    intro u move t h
    cases move with
    | arm armed => exact h
    | poll now board returned => exact (poll_settles u now board returned).uncommitted h

end FmgoUpload

namespace Stateful.Upload

/-- The service has an uncommitted upload of `t`. -/
def uncommitted (u : Upload) (t : UInt32) : Prop := Uncommitted u.owner u.last t

theorem fail_settles (u : Upload) (e : UploadError) :
    Settles u.owner (u.fail e).owner u.last (u.fail e).last :=
  ⟨rfl, rfl, .inr ⟨UploadState.noConfusion, UploadState.noConfusion⟩⟩

theorem drive_settles (u : Upload) (now : UInt32) (board : Board) (overlaps : Bool) :
    Settles u.owner (u.drive now board overlaps).1.owner u.last (u.drive now board overlaps).1.last := by
  unfold drive
  simp only
  cases (u.replacement.poll u.runtime board overlaps now u.armed).1.status with
  | waiting => exact ⟨rfl, rfl, .inl rfl⟩
  | _ => exact ⟨rfl, rfl, .inr ⟨UploadState.noConfusion, UploadState.noConfusion⟩⟩

/-- The same for the FMS2 service, whose poll may also let a transaction expire. -/
theorem poll_settles (u : Upload) (now : UInt32) (board : Board) (overlaps : Bool) :
    Settles u.owner (u.poll now board overlaps).1.owner u.last (u.poll now board overlaps).1.last := by
  unfold poll
  simp only
  split
  · exact ⟨rfl, rfl, .inl rfl⟩
  split
  · exact ⟨rfl, rfl, .inr ⟨UploadState.noConfusion, UploadState.noConfusion⟩⟩
  split
  · exact fail_settles { u with now := now } _
  split
  · exact ⟨rfl, rfl, .inl rfl⟩
  split
  · split
    · exact fail_settles { u with now := now, commit_pending := false } _
    split
    · next replacement accesses _ =>
      exact fail_settles { u with now := now, commit_pending := false, replacement := replacement } _
    · next replacement accesses _ =>
      exact drive_settles { clear_stage { u with now := now, commit_pending := false } with
        replacement := replacement } now board overlaps
  · exact drive_settles { u with now := now } now board overlaps

theorem disconnect_parts (u : Upload) (t : UInt32) : ¬ (u.disconnect t).uncommitted t := by
  rintro ⟨howner, hid, hstate⟩
  rcases disconnect_cases u t with hsame | ha
  · rw [hsame] at howner hid hstate
    have hlast : (u.disconnect t).last.state = .aborted := by
      simp [disconnect, howner, hid, hstate]
    rw [hsame] at hlast
    rw [hlast] at hstate
    rcases hstate with hs | hs <;> cases hs
  · rw [ha.after] at hstate
    rcases hstate with hs | hs <;> cases hs

theorem parting : Parting serve uncommitted where
  disconnect := disconnect_parts
  leave := by
    intro u t t' h
    change (u.disconnect t).uncommitted t' at h
    rcases disconnect_cases u t with hsame | ha
    · rw [hsame] at h
      exact h
    · rw [ha.after] at h
      rcases h.2.2 with hs | hs <;> cases hs
  call := by
    intro u t t' call hne h
    rcases call_changes u t call with hsame | ⟨howner, -⟩
    · rw [hsame] at h
      exact h
    · exact absurd (h.1.symm.trans howner) hne
  serve := by
    intro u move t h
    cases move with
    | arm armed => exact h
    | runtime runtime => exact h
    | poll now board overlaps => exact (poll_settles u now board overlaps).uncommitted h

end Stateful.Upload

end Managed

/-- Every poll of session `t` in every run is punctual, if its polls are in order and less than
2^31 ms apart. -/
def Deadlines {β υ τ ο : Type} [StreamBackend β] [UploadService υ] (io : ByteIO τ) (serve : υ → ο → υ)
    (holds : υ → UInt32 → Prop) (t : UInt32) (b : β) (u : υ) : Prop :=
  ∀ (sys : System β υ) (w : Watch), Timed io serve t b u sys w →
    ∀ s, sys.sessions t = some s → s.result = .running →
      ∀ time, w.last ≤ time → time < w.last + 2 ^ 31 →
        ∀ (memory : Option MemorySamples) (transport : τ),
          Punctual holds io w time memory transport (sys.ctx s)

/-- **The deadlines hold in real time**, with either upload service, whatever the transports and
the backend do. -/
theorem deadlines_hold {β τ : Type} [StreamBackend β] (io : ByteIO τ) (t : UInt32) (b : β) :
    (∀ api : ℕ, Deadlines io Managed.FmgoUpload.serve Managed.FmgoUpload.uncommitted t b { api := api }) ∧
    ∀ (contract resident : Managed.Stateful.Contract) (arena : Managed.Stateful.Arena),
      Deadlines io Managed.Stateful.Upload.serve Managed.Stateful.Upload.uncommitted t b
        { contract := contract
          runtime := { contract := resident, generation := { arena := arena } } } := by
  constructor
  · intro api sys w h s hs hrun time hle hlt memory transport
    exact h.punctual Managed.FmgoUpload.parting (fun _ hu => hu.2.1 rfl) hs hrun hle hlt memory transport
  · intro contract resident arena sys w h s hs hrun time hle hlt memory transport
    exact h.punctual Managed.Stateful.Upload.parting (fun _ hu => hu.2.1 rfl) hs hrun hle hlt memory
      transport

/-! ### A run that reaches a bound -/

section Reached

variable {β υ τ ο : Type} [StreamBackend β] [UploadService υ] (io : ByteIO τ) (serve : υ → ο → υ)
  (t : UInt32) (b : β) (u : υ)

/-- The device after a list of operations, with what is seen of session `t`. -/
def timed_after (ops : List (TimedOp τ β ο)) : System β υ × Watch :=
  Runs.run (fun p m => (p.1.timed_step io serve m, p.2.see io t p.1 m)) (.initial b u, {}) ops

/-- Every list of operations in which the polls are paced is a run. -/
theorem timed_of_paced (ops : List (TimedOp τ β ο))
    (h : ∀ front m, front ++ [m] <+: ops → m.Paced t (timed_after io serve t b u front).2) :
    Timed io serve t b u (timed_after io serve t b u ops).1 (timed_after io serve t b u ops).2 := by
  induction ops using List.reverseRecOn with
  | nil => exact .start
  | append_singleton ops m ih =>
    have hbefore := ih fun front m' hfront => h front m' (hfront.trans (List.prefix_append _ _))
    have hstep := hbefore.step m (h ops m List.prefix_rfl)
    rw [timed_after, Runs.run_concat]
    exact hstep

end Reached

/-- A transport that offers the bytes it has and takes all it is given. -/
def feeding : ByteIO (List Byte) where
  connected _ := true
  read bytes capacity := (bytes.take capacity, bytes.drop capacity)
  write bytes data := (data.length, bytes)

/-- A session says hello and opens the channel, at 100 ms, and then nothing more comes. -/
def idle_run : List (TimedOp (List Byte) Loopback Managed.FmgoUpload.Move) :=
  .construct 1 100 System.sample_identity true ::
    [⟨.request, 1, ascii "\x7b\"op\":\"hello\"\x7d"⟩,
      ⟨.request, 2, ascii "\x7b\"op\":\"serial.open\",\"channel_id\":1\x7d"⟩].flatMap fun f =>
        [.poll 1 100 none ((wire f).take header_size), .poll 1 100 none f.payload]

/-- The session of that run owns the channel. Thirty seconds later it has reached its bound: the
poll calls nothing of the transport, ends it and releases the channel. -/
theorem deadlines_hold_idle :
    let state := timed_after feeding Managed.FmgoUpload.serve 1 ({} : Loopback) { api := 0 } idle_run
    ∃ s, state.1.sessions 1 = some s ∧ state.1.channel.owner = 1 ∧
      ((state.1.ctx s).poll_on feeding 30100 none [0x46]).1 = [0x46] ∧
      ((state.1.ctx s).poll_on feeding 30100 none [0x46]).2.session.result ≠ .running ∧
      ((state.1.ctx s).poll_on feeding 30100 none [0x46]).2.channel.owner ≠ 1 := by
  intro state
  have htimed : Timed feeding Managed.FmgoUpload.serve 1 ({} : Loopback) { api := 0 } state.1 state.2 := by
    have hlast : ∀ front ∈ idle_run.inits,
        (timed_after feeding Managed.FmgoUpload.serve 1 ({} : Loopback) { api := 0 } front).2.last ≤ 100 := by
      decide +kernel
    refine timed_of_paced _ _ _ _ _ idle_run ?_
    intro front m hfront
    have hle := hlast front ((List.mem_inits front _).mpr ((List.prefix_append _ _).trans hfront))
    have hmem : m ∈ idle_run := hfront.subset (by simp)
    -- all polls are at 100 ms
    cases m with
    | poll owner time memory transport =>
      have htime : time = 100 := by
        simp only [idle_run, List.flatMap_cons, List.flatMap_nil, List.mem_cons, List.mem_append,
          List.not_mem_nil, or_false, reduceCtorEq, false_or, TimedOp.poll.injEq] at hmem
        omega
      exact fun _ => ⟨by omega, by omega⟩
    | _ => trivial
  have hlive : (state.1.sessions 1).map (fun s => (s.owner, s.result, s.negotiated, s.closing))
      = some (1, .running, true, false) := by
    decide +kernel
  have hchannel : state.1.channel.owner = 1 := by
    decide +kernel
  have htimes : state.2.last = 100 ∧ state.2.progress = 100 := by
    decide +kernel
  obtain ⟨s, hs, hstate⟩ := Option.map_eq_some_iff.mp hlive
  simp only [Prod.mk.injEq] at hstate
  obtain ⟨howner, hrun, hneg, hclosing⟩ := hstate
  have hpunctual := (deadlines_hold feeding 1 ({} : Loopback)).1 0 state.1 state.2 htimed s hs hrun 30100
    (by omega) (by omega) none [0x46]
  obtain ⟨hcalls, hended, hreleased, -⟩ := hpunctual.ended fun hwithin => by
    have := hwithin.idle hneg hclosing
    omega
  refine ⟨s, hs, hchannel, hcalls, hended, ?_⟩
  rw [show (state.1.ctx s).session.owner = 1 from howner] at hreleased
  exact hreleased

end Firmingo
