/-
Every reply of every run is a document that says what it is.

`ReplyShapes` says so of the texts of the formats. Here the texts are followed through
`Session::dispatch` to the frames that are queued: which identity and which target a running
session has, which words its error replies are made of, and that a record of the upload
service prints with a digest of 32 bytes. The stream queues frames of its own, but no
responses (`carried_speaks`).
-/
import Firmingo.Clocks
import Firmingo.ReplyShapes
import Firmingo.Services

set_option autoImplicit false

open Octets

namespace Firmingo

open Protocol Machine

/-! ## Replies -/

/-- A frame that is queued as a response is within the limit in force and says what it is. -/
def described : Event → Prop
  | .queued _ f limit => f.type = .response → Describes f.payload ∧ f.payload.length ≤ limit
  | _ => True

def Documented (history : List Event) : Prop := ∀ e ∈ history, described e

theorem Documented.snoc {history : List Event} (h : Documented history) {e : Event} (he : described e) :
    Documented (history ++ [e]) := by
  intro x hx
  rcases List.mem_append.mp hx with hx | hx
  · exact h x hx
  · rw [List.mem_singleton.mp hx]
    exact he

theorem code_sayable : ∀ code ∈ Ctx.session_codes, Sayable (ascii code) := by
  simp only [Ctx.session_codes, List.forall_mem_cons]
  repeat rw [ascii_ofList]
  decide +kernel

theorem acquire_error_mem (result : StreamResult) : Ctx.acquire_error result ∈ Ctx.session_codes := by
  cases result <;> decide

theorem backend_error_mem (result : BackendResult) : Ctx.backend_error result ∈ Ctx.session_codes := by
  cases result <;> decide

theorem digest_of_hex_length {hex digest : List Byte} (h : digest_of_hex hex = some digest) :
    hex.length = 2 * digest.length := by
  fun_induction digest_of_hex hex generalizing digest with
  | case1 high low rest ih =>
    simp only [Option.bind_eq_bind, Option.bind_eq_some_iff, Option.pure_def, Option.some.injEq] at h
    obtain ⟨_, _, _, _, tail, htail, rfl⟩ := h
    have hrest := ih htail
    simp only [List.length_cons]
    omega
  | case2 =>
    cases h
    rfl
  | case3 => cases h

/-- A digest that is asked for has 32 bytes, and so has the one that is not. -/
theorem upload_request_digest {d : Json.Document} {method : UploadMethod} {r : UploadRequest}
    (h : upload_request d method = some r) : r.digest.length = 32 := by
  unfold upload_request at h
  simp only [Option.bind_eq_bind, Option.bind_eq_some_iff] at h
  obtain ⟨present, -, h⟩ := h
  split at h
  · split at h
    · cases h
    obtain ⟨target, -, h⟩ := Option.bind_eq_some_iff.mp h
    obtain ⟨size, -, h⟩ := Option.bind_eq_some_iff.mp h
    obtain ⟨board, -, h⟩ := Option.bind_eq_some_iff.mp h
    obtain ⟨format, -, h⟩ := Option.bind_eq_some_iff.mp h
    obtain ⟨hash, -, h⟩ := Option.bind_eq_some_iff.mp h
    split at h
    · cases h
    next hlen =>
    obtain ⟨digest, hdigest, h⟩ := Option.bind_eq_some_iff.mp h
    cases h
    have hhex := digest_of_hex_length hdigest
    simp only [ne_eq, Bool.or_eq_true, decide_eq_true_eq, not_or, not_not] at hlen
    change digest.length = 32
    omega
  · split at h
    · cases h
    obtain ⟨target, -, h⟩ := Option.bind_eq_some_iff.mp h
    obtain ⟨id, -, h⟩ := Option.bind_eq_some_iff.mp h
    cases h
    exact List.length_replicate

/-- The records of an upload service hold digests of 32 bytes, in the states it can be in. -/
structure Sized {υ : Type} [UploadService υ] (sized : υ → Prop) : Prop where
  disconnect : ∀ u t, sized u → sized (UploadService.disconnect u t)
  call : ∀ u t (call : UploadCall), (∀ size digest, call = .begin size digest → digest.length = 32) →
    sized u → sized (call.run u t).2 ∧
      ((call.run u t).1.error = .none → (call.run u t).1.status.digest.length ≤ 32)
  status : ∀ u id, sized u → (UploadService.status u id).error = .none →
    (UploadService.status u id).status.digest.length ≤ 32

section Channel

variable {β : Type} [StreamBackend β] {k : Channel β}

theorem retire_documented (h : Documented k.history) (t : UInt32) : Documented (k.retire t).history :=
  (h.snoc (e := .closed t) trivial).snoc (e := .discard t) trivial

theorem release_documented (h : Documented k.history) (t : UInt32) :
    Documented (k.release t).history := by
  unfold Channel.release
  simp only
  split
  · exact retire_documented h t
  · exact h

theorem acquire_configure_history (configuration : Option SerialConfiguration) :
    (k.acquire_configure configuration).2.history = k.history := by
  cases configuration <;> rfl

theorem acquire_documented (h : Documented k.history) (t now : UInt32)
    (configuration : Option SerialConfiguration) :
    Documented (k.acquire t now configuration).2.history := by
  have hconfigured : Documented (k.acquire_configure configuration).2.history := by
    rw [acquire_configure_history]
    exact h
  unfold Channel.acquire
  split
  · exact h
  simp only
  split
  · exact hconfigured
  split
  · exact hconfigured
  split
  · exact (hconfigured.snoc (e := .discard t) trivial).snoc (e := .opened t) trivial
  · exact hconfigured

theorem configure_documented (h : Documented k.history) (t : UInt32) (value : SerialConfiguration) :
    Documented (k.configure t value).2.history := by
  unfold Channel.configure
  split
  · exact h
  split
  · exact h
  · exact h

end Channel

/-! ## Dispatch -/

namespace Ctx

variable {β υ : Type} [StreamBackend β] [UploadService υ] {sized : υ → Prop}

/-- What holds of a session that runs: the constructor has admitted its identity and its
target, and all that was queued is described. -/
structure Speaks (sized : υ → Prop) (c : Ctx β υ) : Prop where
  history : Documented c.channel.history
  identity : Session.identity_ok c.session.identity = true
  target : c.session.has_upload = true → Session.target_ok (UploadService.target υ) = true
  upload : sized c.upload

variable {c c' : Ctx β υ} (hsized : Sized sized) (h : Speaks sized c)
include h

omit [StreamBackend β] in
theorem Speaks.channel {k : Channel β} (hk : Documented k.history) :
    Speaks sized { c with channel := k } :=
  ⟨hk, h.identity, h.target, h.upload⟩

omit [StreamBackend β] in
theorem Speaks.service {u : υ} (hu : sized u) : Speaks sized { c with upload := u } :=
  ⟨h.history, h.identity, h.target, hu⟩

omit [StreamBackend β] in
/-- The session may change in all but its identity and its service. -/
theorem Speaks.session {s : Session} (hi : s.identity = c.session.identity)
    (hu : s.has_upload = c.session.has_upload) : Speaks sized { c with session := s } :=
  ⟨h.history, by rw [hi]; exact h.identity, by rw [hu]; exact h.target, h.upload⟩

include hsized

omit h in
theorem let_go_keeps (hhistory : Documented c.channel.history) (hupload : sized c.upload) :
    Documented c.let_go.channel.history ∧ sized c.let_go.upload := by
  unfold let_go
  constructor
  · simp only
    split
    · exact release_documented hhistory _
    · exact hhistory
  · simp only
    split
    · exact hsized.disconnect _ _ hupload
    · exact hupload

theorem let_go_speaks : Speaks sized c.let_go :=
  have hkeeps := let_go_keeps hsized h.history h.upload
  ⟨hkeeps.1, h.identity, h.target, hkeeps.2⟩

theorem finish_speaks (result : SessionResult) : Speaks sized (c.finish result) :=
  (let_go_speaks hsized h).session rfl rfl

theorem say_speaks (id : ℕ) {reply : Reply}
    (hreply : (reply.payload c.limit).length ≤ 4096 → Describes (reply.payload c.limit)) :
    Speaks sized (c.say id reply) := by
  rcases c.say_cases id reply with heq | ⟨-, hlimit, hbuffer, heq⟩
  · rw [heq]
    exact finish_speaks hsized h _
  · rw [heq]
    have hbound : Session.response_capacity ≤ 4096 := by decide
    have hevent : described (.queued c.session.owner ⟨.response, id, reply.payload c.limit⟩ c.limit) :=
      fun _ => ⟨hreply (hbuffer.trans hbound), hlimit⟩
    exact ⟨h.history.snoc hevent, h.identity, h.target, h.upload⟩

/-- The end of a dispatch, if what is said then says what it is. -/
theorem settle_speaks (now : UInt32) (id : ℕ) {o : Outcome} (ho : ∀ turn reply,
      o = .replied turn reply → (reply.payload c.limit).length ≤ 4096 →
        Describes (reply.payload c.limit)) : Speaks sized (c.settle now id o) := by
  cases o with
  | replied turn reply =>
    have hsaid := say_speaks hsized h id (ho turn reply rfl)
    cases turn <;> exact hsaid.session rfl rfl
  | dismissed =>
    have hsaid : Speaks sized (c.say id (.error "invalid_argument")) :=
      say_speaks hsized h id (error_describes (code_sayable _ (by decide)))
    exact (let_go_speaks hsized (hsaid.session rfl rfl)).session rfl rfl
  | abandoned => exact finish_speaks hsized h _

/-- A call of the upload service keeps its records, and what it says of one. -/
theorem service_sized {memory : Option MemorySamples} {call : UploadCall}
    (hcall : c.errand memory = some (.service call)) :
    sized (call.run c.upload c.session.owner).2 ∧
      ((call.run c.upload c.session.owner).1.error = .none →
        (call.run c.upload c.session.owner).1.status.digest.length ≤ 32) := by
  refine hsized.call c.upload c.session.owner call ?_ h.upload
  rintro size digest rfl
  rcases errand_cases hcall with ⟨-, hno⟩ | ⟨_, _, r, hr, -, he⟩ | ⟨r, -, he⟩
  · cases hno
  · unfold UploadRequest.errand at he
    split at he
    · cases he
      exact upload_request_digest hr
    all_goals cases he
  · unfold Request.errand at he
    split at he <;> cases he

/-- An errand keeps what was admitted, and queues nothing. -/
theorem perform_speaks (now : UInt32) (memory : Option MemorySamples) :
    Speaks sized (c.perform now (c.errand memory)) := by
  rcases he : c.errand memory with _ | e
  · exact h
  cases e with
  | service call => exact h.service (service_sized hsized h he).1
  | status id => exact h
  | negotiate offer =>
    simp only [perform]
    split <;> exact h.session rfl rfl
  | acquire configuration =>
    exact (h.channel (acquire_documented h.history _ _ _)).session rfl rfl
  | configure configuration => exact h.channel (configure_documented h.history _ _)
  | release => exact (h.channel (release_documented h.history _)).session rfl rfl
  | report => exact h.channel h.history

omit hsized in
omit [StreamBackend β] in
/-- The target a session advertises is one that the constructor has admitted. -/
theorem targets_eq : ∃ target : Option UploadTarget, target.all Session.target_ok = true ∧
    c.targets = target.elim (ascii "[]") targets_body := by
  unfold targets
  split
  · next has => exact ⟨some (UploadService.target υ), h.target has, rfl⟩
  · exact ⟨none, rfl, rfl⟩

omit hsized in
theorem description_describes {body : List Byte} (hbody : c.description = some body) :
    body.length ≤ 4096 → Describes body := by
  obtain ⟨target, htarget, htargets⟩ := targets_eq h
  unfold description at hbody
  rw [htargets] at hbody
  simp only at hbody
  split at hbody
  · obtain ⟨configuration, -, rfl⟩ := Option.map_eq_some_iff.mp hbody
    exact hello_uart_describes h.identity htarget
  · cases hbody
    exact hello_application_describes h.identity htarget

omit h hsized [UploadService υ] in
theorem report_describes (m : MemorySamples) (d : Option BackendDiagnostics) :
    (c.report_body m d).length ≤ 4096 → Describes (c.report_body m d) := by
  refine diagnostics_describes _ ?_
  cases d with
  | none => exact .inl rfl
  | some b =>
    unfold sketch_fields
    simp only
    split
    · exact .inr ⟨b, rfl, rfl⟩
    · exact .inl rfl

omit h hsized [StreamBackend β] [UploadService υ] in
theorem bounded_describes {limit : ℕ} {body : List Byte} (hbody : body.length ≤ 4096 → Describes body) :
    (bounded limit body).length ≤ 4096 → Describes (bounded limit body) := by
  unfold bounded
  split
  · exact error_describes (code_sayable _ (by decide))
  · exact hbody

omit h hsized [StreamBackend β] [UploadService υ] in
theorem upload_reply_describes {limit : ℕ} {answer : UploadAnswer}
    (hanswer : answer.error = .none → answer.status.digest.length ≤ 32) :
    (upload_reply limit answer).length ≤ 4096 → Describes (upload_reply limit answer) := by
  unfold upload_reply
  split
  · exact error_describes (upload_error_sayable _)
  · next hnone => exact bounded_describes (upload_describes (hanswer (not_not.mp hnone)))

/-- Whatever follows an errand says what it is. -/
theorem follows_describes {now : UInt32} {memory : Option MemorySamples} {turn : Bool} {reply : Reply}
    (ho : Follows c now (c.errand memory) (.replied turn reply)) (limit : ℕ) :
    (reply.payload limit).length ≤ 4096 → Describes (reply.payload limit) := by
  have hperformed := perform_speaks hsized h now memory
  generalize he : c.errand memory = e at ho hperformed
  cases ho with
  | refused _ known => exact error_describes (code_sayable _ known)
  | unfit error => exact upload_reply_describes fun _ => le_of_eq List.length_replicate
  | counted => exact bounded_describes (status_describes _ _ _ _)
  | called _ call => exact upload_reply_describes (service_sized hsized h he).2
  | asked id => exact upload_reply_describes (hsized.status _ _ h.upload)
  | described description => exact bounded_describes (description_describes hperformed description)
  | reported m => exact bounded_describes (report_describes m _)
  | acquired | released => exact fun _ => success_describes
  | denied => exact error_describes (code_sayable _ (acquire_error_mem _))
  | configured value => exact bounded_describes (configure_describes _)
  | misconfigured => exact error_describes (code_sayable _ (backend_error_mem _))

/-- **A dispatch queues no response but one that says what it is.** -/
theorem dispatch_speaks (now : UInt32) (memory : Option MemorySamples) :
    Speaks sized (c.dispatch now memory) := by
  by_cases hcontrol : c.session.decoder.type = .request ∨ c.session.decoder.type = .upload
  · obtain ⟨o, ho, heq⟩ := dispatch_settles now memory hcontrol
    rw [heq]
    refine settle_speaks hsized (perform_speaks hsized h now memory) now _ ?_
    rintro turn reply rfl
    exact follows_describes hsized h ho _
  rcases dispatch_other now memory hcontrol with heq | ⟨result, -, heq⟩
  · rw [heq]
    exact h
  · rw [heq]
    exact finish_speaks hsized h _

/-! ## Polling -/

omit hsized [StreamBackend β] in
/-- What the stream carries is no response. -/
theorem carried_speaks (hcarried : Carried c c') : Speaks sized c' := by
  obtain ⟨more, hmore, hstream⟩ := hcarried.streamed
  refine ⟨?_, by rw [hcarried.session]; exact h.identity, by rw [hcarried.session]; exact h.target,
    by rw [hcarried.upload]; exact h.upload⟩
  intro e he
  rw [hmore] at he
  rcases List.mem_append.mp he with hold | hnew
  · exact h.history e hold
  have hs := hstream e hnew
  cases e with
  | queued t f limit =>
    simp only [streaming, decide_eq_true_eq] at hs
    intro hresponse
    rw [hs] at hresponse
    cases hresponse
  | _ => trivial

theorem pump_speaks (halive : Alive c) (now : UInt32) : Speaks sized (c.pump now) := by
  have hway := pump_way halive now
  generalize c.pump now = c' at hway ⊢
  cases hway with
  | went ok stream_at session_at credited =>
    have hspeaks := carried_speaks h (outward_carried halive)
    exact ⟨hspeaks.history, hspeaks.identity, hspeaks.target, hspeaks.upload⟩
  | failed c₁ stopped =>
    have hspeaks : Speaks sized c₁ := by
      rcases stopped with rfl | rfl | ⟨_, rfl⟩
      · exact h
      · exact carried_speaks h (inward_carried halive)
      · exact carried_speaks h (outward_carried halive)
    have hretired : Speaks sized c₁.retired := hspeaks.channel (retire_documented hspeaks.history _)
    exact finish_speaks hsized hretired _

theorem flush_speaks (input : PollInput) : Speaks sized (c.flush input) := by
  unfold flush
  split
  · exact h
  simp only
  split
  · exact finish_speaks hsized h _
  · exact ⟨h.history.snoc trivial, h.identity, h.target, h.upload⟩

theorem receive_speaks (input : PollInput) : Speaks sized (c.receive input) := by
  unfold receive
  split
  · exact h
  simp only
  split
  · exact finish_speaks hsized h _
  split
  · exact h
  split
  · exact ⟨h.history.snoc trivial, h.identity, h.target, h.upload⟩
  · exact h.session rfl rfl

theorem move_speaks {input : PollInput} (hi : Inv c.config) (hrun : c.session.result = .running)
    (hmove : Move input c c') : Speaks sized c' := by
  cases hmove with
  | flush => exact flush_speaks hsized h input
  | pump owned => exact pump_speaks hsized h ⟨hi, hrun, owned⟩ _
  | turn => exact h.session rfl rfl
  | finish ended => exact finish_speaks hsized h _

/-- **A poll queues no response but one that says what it is.** -/
theorem poll_speaks (hi : Inv c.config) (input : PollInput) : Speaks sized (c.poll input) :=
  (poll_polls hi input).rule (R := fun c c' => Speaks sized c → Speaks sized c') (fun _ => id)
    (fun h h' hs => h' (h hs)) (fun hi hrun hmove hs => move_speaks hsized hs hi hrun hmove)
    (fun _ _ hs => receive_speaks hsized hs input) (fun _ hs => dispatch_speaks hsized hs _ _) h

end Ctx

/-! ## Runs -/

namespace System

variable {β υ : Type} [StreamBackend β] [UploadService υ] {sized : υ → Prop}

/-- What a run keeps: a session that runs has been admitted. -/
structure Spoken (sized : υ → Prop) (sys : System β υ) : Prop where
  history : Documented sys.channel.history
  admitted : ∀ {t s}, sys.sessions t = some s → s.result = .running →
    Session.identity_ok s.identity = true ∧
      (s.has_upload = true → Session.target_ok (UploadService.target υ) = true)
  upload : sized sys.upload

theorem construct_admitted {identity : Identity} {owner now : UInt32} {target : Option UploadTarget}
    (hrun : (Session.construct identity owner now target).result = .running) :
    Session.identity_ok identity = true ∧ target.all Session.target_ok = true := by
  unfold Session.construct at hrun
  simp only at hrun
  split at hrun
  · cases hrun
  next hidentity =>
  split at hrun
  · cases hrun
  next htarget =>
  simp only [Bool.or_eq_true, decide_eq_true_eq, Bool.not_eq_eq_eq_not, Bool.not_true, not_or,
    Bool.not_eq_false] at hidentity htarget
  exact ⟨hidentity.2, htarget⟩

variable {sys : System β υ} (h : Spoken sized sys)
include h

omit [StreamBackend β] in
/-- A method of a live session. -/
theorem Spoken.put {t : UInt32} {c : Ctx β υ} (hhistory : Documented c.channel.history)
    (hupload : sized c.upload) (hadmitted : c.session.result = .running →
      Session.identity_ok c.session.identity = true ∧
        (c.session.has_upload = true → Session.target_ok (UploadService.target υ) = true)) :
    Spoken sized (sys.put t c) := by
  refine ⟨hhistory, ?_, hupload⟩
  intro t' s' hs' hrun
  rcases update_eq_some hs' with ⟨rfl, rfl⟩ | ⟨-, hold⟩
  · exact hadmitted hrun
  · exact h.admitted hold hrun

theorem Spoken.poll (hok : Ok sys) (hsized : Sized sized) (t : UInt32) (input : PollInput) :
    Spoken sized (sys.on t (·.poll input)) := by
  unfold on
  split
  · exact h
  next s hs =>
  by_cases hrun : s.result = .running
  · obtain ⟨hidentity, htarget⟩ := h.admitted hs hrun
    have hspeaks := Ctx.poll_speaks hsized (c := sys.ctx s) ⟨h.history, hidentity, htarget, h.upload⟩
      (hok.inv hs) input
    exact h.put hspeaks.history hspeaks.upload fun _ => ⟨hspeaks.identity, hspeaks.target⟩
  · have hsame : (sys.ctx s).poll input = sys.ctx s := by
      unfold Ctx.poll
      exact if_pos hrun
    dsimp only
    rw [hsame]
    exact h.put h.history h.upload fun hno => absurd hno hrun

theorem Spoken.close (hsized : Sized sized) (t : UInt32) : Spoken sized (sys.on t Ctx.close) := by
  unfold on
  split
  · exact h
  next s hs =>
  have hkeeps := Ctx.let_go_keeps hsized (c := sys.ctx s) h.history h.upload
  refine h.put hkeeps.1 hkeeps.2 ?_
  intro hno
  exfalso
  change (if s.result = .running then SessionResult.closed else s.result) = .running at hno
  split at hno
  · cases hno
  · next hrun => exact hrun hno

/-- **Every operation keeps it.** -/
theorem Spoken.step (hok : Ok sys) (hsized : Sized sized) (o : Op β υ) (ho : ∀ u, o = .upload u → sized u) :
    Spoken sized (sys.step o) := by
  cases o with
  | construct owner now identity has_upload =>
    simp only [System.step]
    split
    · exact h
    refine ⟨h.history.snoc trivial, ?_, h.upload⟩
    intro t s hs hrun
    rcases update_eq_some hs with ⟨-, rfl⟩ | ⟨-, hold⟩
    · obtain ⟨hidentity, htarget⟩ := construct_admitted hrun
      refine ⟨hidentity, fun has => ?_⟩
      cases has_upload with
      | false => cases has
      | true => exact htarget
    · exact h.admitted hold hrun
  | poll owner input => exact h.poll hok hsized owner input
  | close owner => exact h.close hsized owner
  | destroy owner =>
    have hclosed := h.close hsized owner
    exact ⟨hclosed.history, fun hs => hclosed.admitted (update_none_eq_some hs).2, hclosed.upload⟩
  | backend b => exact ⟨h.history, h.admitted, h.upload⟩
  | upload u => exact ⟨h.history, h.admitted, ho u rfl⟩

omit h in
theorem spoken_after (hsized : Sized sized) (b : β) {u : υ} (hu : sized u) (ops : List (Op β υ))
    (hops : ∀ v, .upload v ∈ ops → sized v) : Spoken sized (System.after b u ops) := by
  induction ops using List.reverseRecOn with
  | nil => exact ⟨fun e he => absurd he List.not_mem_nil, fun hs => (by cases hs), hu⟩
  | append_singleton ops o ih =>
    rw [System.after, Runs.run_concat]
    refine (ih fun v hv => hops v (List.mem_append_left _ hv)).step
      (inward_rule.after b u ops).ok hsized o ?_
    rintro v rfl
    exact hops v (List.mem_append_right _ (List.mem_singleton.mpr rfl))

end System

namespace Managed.FmgoUpload

/-- The record holds a digest of 32 bytes. -/
def sized (u : FmgoUpload) : Prop := u.last.digest.length = 32

/-- Every call keeps the digest of the record at 32 bytes. -/
theorem sized_records : Sized sized where
  disconnect u t h := by
    change (u.disconnect t).last.digest.length = 32
    rcases disconnect_cases u t with hsame | ha
    · rw [hsame]
      exact h
    · rw [ha.after]
      exact h
  call u t call hdigest h := by
    cases call with
    | begin size digest =>
      change (u.begin t size digest).2.last.digest.length = 32 ∧ ((u.begin t size digest).1.error = .none →
        (u.begin t size digest).1.status.digest.length ≤ 32)
      rcases begin_cases u t size digest with ⟨herror, hsame⟩ | hb
      · rw [hsame]
        exact ⟨h, fun hnone => absurd hnone herror⟩
      · have hlen : digest.length = 32 := hdigest size digest rfl
        rw [hb.answer_eq, hb.after]
        exact ⟨hlen, fun _ => le_of_eq hlen⟩
    | chunk id offset data =>
      change (u.chunk t id offset data).2.last.digest.length = 32 ∧
        ((u.chunk t id offset data).1.error = .none →
          (u.chunk t id offset data).1.status.digest.length ≤ 32)
      rcases chunk_cases u t id offset data with ⟨herror, hsame⟩ | hc
      · rw [hsame]
        exact ⟨h, fun hnone => absurd hnone herror⟩
      · rw [hc.answer_eq, hc.after]
        exact ⟨h, fun _ => le_of_eq h⟩
    | finish id =>
      change (u.finish t id).2.last.digest.length = 32 ∧ ((u.finish t id).1.error = .none →
        (u.finish t id).1.status.digest.length ≤ 32)
      rcases finish_cases u t id with ⟨herror, hsame⟩ | hs | hf
      · rw [hsame]
        exact ⟨h, fun hnone => absurd hnone herror⟩
      · obtain ⟨stage, -, hafter⟩ := hs.after
        rw [hafter]
        exact ⟨h, fun hnone => absurd hnone hs.error_ne⟩
      · rw [hf.answer_eq, hf.after]
        exact ⟨h, fun _ => le_of_eq h⟩
    | commit id =>
      change (u.commit t id).2.last.digest.length = 32 ∧ ((u.commit t id).1.error = .none →
        (u.commit t id).1.status.digest.length ≤ 32)
      rcases commit_cases u t id with ⟨herror, hsame⟩ | ⟨-, -, hanswer, hafter⟩
      · rw [hsame]
        exact ⟨h, fun hnone => absurd hnone herror⟩
      · rw [hanswer, hafter]
        exact ⟨h, fun _ => le_of_eq h⟩
    | abort id =>
      change (u.abort t id).2.last.digest.length = 32 ∧ ((u.abort t id).1.error = .none →
        (u.abort t id).1.status.digest.length ≤ 32)
      unfold abort
      split
      · exact ⟨h, fun hnone => by cases hnone⟩
      split
      · exact ⟨h, fun hnone => by cases hnone⟩
      split
      · exact ⟨h, fun hnone => by cases hnone⟩
      split
      · exact ⟨h, fun _ => le_of_eq h⟩
      · exact ⟨h, fun hnone => by cases hnone⟩
  status u id h hnone := by
    change (u.status id).status.digest.length ≤ 32
    change (u.status id).error = .none at hnone
    unfold status at hnone ⊢
    split
    · next hwrong =>
      rw [if_pos hwrong] at hnone
      cases hnone
    · exact le_of_eq h

end Managed.FmgoUpload

/-- **Every response that is queued in a run is a document that the repository's own validator
accepts; it describes itself, and it is within the limit in force.** Whatever the backend, the
identities, the transports and the memory samples, and with any upload service whose records
hold digests of 32 bytes. -/
theorem replies_describe_themselves {β υ : Type} [StreamBackend β] [UploadService υ] {sized : υ → Prop}
    (hsized : Sized sized) (b : β) (u : υ) (hu : sized u) (ops : List (Op β υ))
    (hops : ∀ v, .upload v ∈ ops → sized v) (t : UInt32) (f : Frame) (limit : ℕ)
    (hqueued : .queued t f limit ∈ (System.after b u ops).channel.history) (hresponse : f.type = .response) :
    Describes f.payload ∧ f.payload.length ≤ limit :=
  (System.spoken_after hsized b hu ops hops).history _ hqueued hresponse

/-- A chunk before hello, and its reply. -/
def early_chunk_run : List (Op Loopback Managed.FmgoUpload) :=
  .construct 1 0 System.sample_identity true :: System.deliver 1 ⟨.upload, 7, List.replicate 9 0⟩

theorem replies_describe_themselves_chunk :
    .queued 1 ⟨.response, 7, error_body "invalid_state"⟩ 4096 ∈
        (System.after ({} : Loopback) ({ api := 1 } : Managed.FmgoUpload) early_chunk_run).channel.history ∧
      Describes (error_body "invalid_state") ∧ (error_body "invalid_state").length ≤ 4096 := by
  have hqueued : .queued 1 ⟨.response, 7, error_body "invalid_state"⟩ 4096 ∈
      (System.after ({} : Loopback) ({ api := 1 } : Managed.FmgoUpload) early_chunk_run).channel.history := by
    decide +kernel
  refine ⟨hqueued, replies_describe_themselves Managed.FmgoUpload.sized_records _ _ ?_ _ ?_ 1 _ _ hqueued rfl⟩
  · rfl
  · intro v hv
    simp [early_chunk_run, System.deliver] at hv

end Firmingo
