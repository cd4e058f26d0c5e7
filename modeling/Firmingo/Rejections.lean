/-
Rejected requests.

A request or an upload frame is answered by one response frame. If the answer is an error
by which the device refuses the request, the dispatch has changed nothing but the reply
itself. The errors that report a failure on the way (`io_error`, a reply that would be too
large, a digest that does not match) are not refusals, and neither is the answer to malformed
JSON, which ends the session.

Every path of `dispatch` is one of three: it refuses before it has touched anything, it
answers with something else than a refusal, or it ends the session without an answer.
-/
import Firmingo.Framing
import Firmingo.Hello
import Firmingo.Ownership
import Firmingo.Services

set_option autoImplicit false

open Octets

namespace Firmingo

open Protocol

variable {β υ : Type}

/-- The codes that refuse a request. -/
def refusals : List String :=
  ["invalid_argument", "invalid_state", "wrong_target", "unsupported", "busy", "unauthorized",
    "wrong_owner", "wrong_offset", "incomplete", "insufficient_storage"]

/-- A dispatch without effect: on the channel and its stream, the backend, the upload service
and what was negotiated. Only replies are added to the history. -/
structure Unchanged (c c' : Ctx β υ) : Prop where
  stream : c'.channel.stream = c.channel.stream
  rx_bytes : c'.channel.rx_bytes = c.channel.rx_bytes
  tx_bytes : c'.channel.tx_bytes = c.channel.tx_bytes
  backend : c'.channel.backend = c.channel.backend
  upload : c'.upload = c.upload
  negotiated : c'.session.negotiated = c.session.negotiated
  limit : c'.session.decoder.limit = c.session.decoder.limit
  calls : ∃ more, c'.channel.history = c.channel.history ++ more ∧ ∀ e ∈ more, lifecycle e = false

/-- The answer that was queued for a request. -/
def Answers (c : Ctx β υ) (id : ℕ) (body : List Byte) : Prop :=
  c.session.output = wire ⟨.response, id, body⟩

/-- The errors of an upload service that refuse a call. -/
def error_refuses (e : UploadError) : Bool := upload_error_name e ∈ refusals

/-! ## Texts -/

/-- The byte that tells a success from an error. -/
def verdict (body : List Byte) : Byte := body.getD 6 0

theorem verdict_text {l : List Char} {rest : List Byte} {b : Byte}
    (h : l[6]?.map (fun c => UInt8.ofNat c.toNat) = some b) :
    verdict (ascii (String.ofList l) ++ rest) = b := by
  obtain ⟨c, hc, rfl⟩ := Option.map_eq_some_iff.mp h
  have hlen : 6 < (ascii (String.ofList l)).length := by
    rw [text_length]
    exact (List.getElem?_eq_some_iff.mp hc).1
  rw [verdict, List.getD_append _ _ _ _ hlen, ascii_ofList, List.getD_eq_getElem?_getD,
    List.getElem?_map, hc]
  rfl

theorem verdict_error (code : String) : verdict (error_body code) = 0x66 := by
  unfold error_body
  simp only [List.append_assoc]
  exact verdict_text rfl

/-- The text of an error shows its code. -/
theorem error_body_inj {a b : String} (h : error_body a = error_body b) : ascii a = ascii b := by
  unfold error_body at h
  have hlen := congrArg List.length h
  simp only [List.length_append] at hlen
  simp only [List.append_assoc, List.append_cancel_left_eq] at h
  exact (List.append_inj h (by omega)).1

theorem verdict_success : verdict success_body = 0x74 := by
  rw [← List.append_nil success_body, success_body]
  exact verdict_text rfl

theorem verdict_configure (c : SerialConfiguration) : verdict (configure_body c) = 0x74 := by
  unfold configure_body
  simp only [List.append_assoc]
  exact verdict_text rfl

theorem verdict_upload (s : UploadStatus) : verdict (upload_body s) = 0x74 := by
  unfold upload_body
  simp only [List.append_assoc]
  exact verdict_text rfl

theorem verdict_hello_uart (i : Identity) (limit : ℕ) (owned : Bool) (c : SerialConfiguration)
    (targets : List Byte) : verdict (hello_uart_body i limit owned c targets) = 0x74 := by
  unfold hello_uart_body hello_head
  simp only [List.append_assoc]
  exact verdict_text rfl

theorem verdict_hello_application (i : Identity) (limit : ℕ) (owned : Bool) (targets : List Byte) :
    verdict (hello_application_body i limit owned targets) = 0x74 := by
  unfold hello_application_body hello_head
  simp only [List.append_assoc]
  exact verdict_text rfl

theorem verdict_diagnostics (m : MemorySamples) (peak_rx peak_tx : ℕ) (kind : BackendKind)
    (backend : Option BackendDiagnostics) (sketch : List Byte) :
    verdict (diagnostics_body m peak_rx peak_tx kind backend sketch) = 0x74 := by
  unfold diagnostics_body memory_members
  simp only [List.append_assoc]
  exact verdict_text rfl

theorem wire_body {id : ℕ} {body body' : List Byte}
    (h : wire ⟨.response, id, body⟩ = wire ⟨.response, id, body'⟩) : body = body' := by
  unfold wire at h
  exact (List.append_inj h (by rw [header_length, header_length])).2

/-! ## Answers -/

theorem too_large_no_refusal : ∀ refusal ∈ refusals, ascii "response_too_large" ≠ ascii refusal := by
  decide +kernel

theorem io_error_no_refusal : ∀ refusal ∈ refusals, ascii "io_error" ≠ ascii refusal := by
  decide +kernel

/-- A success refuses nothing, whether it fits or not. -/
theorem bounded_no_refusal {body : List Byte} (hbody : verdict body = 0x74) (limit : ℕ) {code : String}
    (hcode : code ∈ refusals) : Ctx.bounded limit body ≠ error_body code := by
  unfold Ctx.bounded
  split
  · exact fun hsame => too_large_no_refusal code hcode (error_body_inj hsame)
  · rintro rfl
    rw [verdict_error] at hbody
    cases hbody

/-- A refusal of the upload service is one of its refusals. -/
theorem upload_refuses {answer : UploadAnswer} {limit : ℕ} {code : String} (hcode : code ∈ refusals)
    (h : Ctx.upload_reply limit answer = error_body code) :
    answer.error ≠ .none ∧ error_refuses answer.error = true := by
  unfold Ctx.upload_reply at h
  split at h
  · next hne =>
    refine ⟨hne, ?_⟩
    have hname := error_body_inj h
    revert hname code
    cases answer.error <;> decide +kernel
  · exact absurd h (bounded_no_refusal (verdict_upload _) limit hcode)

theorem spoils_eq_false {call : UploadCall} {e : UploadError} (h : error_refuses e = true) :
    Managed.spoils call e = false := by
  unfold Managed.spoils
  split
  · exact absurd h (by decide)
  · exact absurd h (by decide)
  · rfl

/-- What is replied is what is sent, and nothing else has changed; or nothing is sent. -/
theorem replied_cases [StreamBackend β] [UploadService υ] (c : Ctx β υ) (now : UInt32) (id : ℕ)
    (turn : Bool) (reply : Ctx.Reply) :
    (c.settle now id (.replied turn reply)).session.output = [] ∨
      Answers (c.settle now id (.replied turn reply)) id (reply.payload c.limit) ∧
        Unchanged c (c.settle now id (.replied turn reply)) := by
  have hquiet : ∀ e ∈ [Event.queued c.session.owner ⟨.response, id, reply.payload c.limit⟩ c.limit],
      lifecycle e = false := by
    intro e he
    rw [List.mem_singleton.mp he]
    rfl
  rcases c.say_cases id reply with h | ⟨-, -, -, h⟩
  · cases turn <;> exact .inl (by rw [Ctx.settle, h]; rfl)
  · cases turn <;> rw [Ctx.settle, h]
    · exact .inr ⟨rfl, rfl, rfl, rfl, rfl, rfl, rfl, rfl, _, rfl, hquiet⟩
    · exact .inr ⟨rfl, rfl, rfl, rfl, rfl, rfl, rfl, rfl, _, rfl, hquiet⟩

/-! ## The backend -/

/-- The results of a backend that refuse a call. -/
def result_refuses (r : BackendResult) : Bool := r = .unsupported || r = .invalid_argument || r = .busy

/-- A backend that refuses before it has changed, and that can be opened once it is
configured. -/
structure Polite (β : Type) [StreamBackend β] : Prop where
  configure : ∀ (b : β) (value : SerialConfiguration),
    result_refuses (StreamBackend.configure b value).1 = true → (StreamBackend.configure b value).2 = b
  prepare : ∀ b : β, (StreamBackend.prepare_open b).2 = b
  configured : ∀ (b : β) (value : SerialConfiguration), (StreamBackend.configure b value).1 = .ok →
    result_refuses (StreamBackend.prepare_open (StreamBackend.configure b value).2).1 = false

/-- The assumption about a UART driver: a configure that returns true leaves the transmitter
idle, and polling the receiver does not start it. -/
def LeavesIdle (δ : Type) [UartDriver δ] : Prop :=
  ∀ (d : δ) (value : SerialConfiguration), (UartDriver.configure d value).1.1 = true →
    UartDriver.tx_idle (UartDriver.take_rx_overrun
      (UartDriver.rx_pending (UartDriver.configure d value).2).2).2 = true

theorem ApplicationEndpoint.polite : Polite ApplicationEndpoint where
  configure _ _ _ := rfl
  prepare _ := rfl
  configured _ _ h := by cases h

section Uart

variable {δ : Type} [UartDriver δ]

theorem UartBackend.observe_driver (u : UartBackend δ) :
    u.observe.driver = (UartDriver.take_rx_overrun (UartDriver.rx_pending u.driver).2).2 := by
  unfold UartBackend.observe
  simp only
  split <;> rfl

/-- A configure call is refused without change, fails, or leaves the driver as configured. -/
theorem UartBackend.configure_cases (u : UartBackend δ) (value : SerialConfiguration) :
    (u.configure value).1 ≠ .ok ∧ (u.configure value).2 = u ∨ (u.configure value).1 = .io_error ∨
      (u.configure value).1 = .ok ∧ ∃ d, (UartDriver.configure d value).1.1 = true ∧
        (u.configure value).2.driver = (UartDriver.take_rx_overrun
          (UartDriver.rx_pending (UartDriver.configure d value).2).2).2 := by
  unfold UartBackend.configure
  simp only
  split
  · exact .inl ⟨BackendResult.noConfusion, rfl⟩
  split
  · exact .inl ⟨BackendResult.noConfusion, rfl⟩
  generalize (if UartDriver.active u.driver = true then u.discard else u) = v
  split
  · exact .inr (.inl rfl)
  next hactive =>
  split
  · exact .inr (.inl rfl)
  refine .inr (.inr ⟨rfl, v.driver, ?_, observe_driver _⟩)
  simp only [Bool.or_eq_true, Bool.not_eq_true', not_or, Bool.not_eq_false] at hactive
  exact hactive.1.1

theorem UartBackend.polite (hidle : LeavesIdle δ) : Polite (UartBackend δ) where
  configure u value h := by
    change result_refuses (u.configure value).1 = true at h
    rcases configure_cases u value with ⟨_, hsame⟩ | hio | ⟨hok, _⟩
    · exact hsame
    · rw [hio] at h
      cases h
    · rw [hok] at h
      cases h
  prepare _ := rfl
  configured u value h := by
    change (u.configure value).1 = .ok at h
    change result_refuses (u.configure value).2.prepare_open = false
    rcases configure_cases u value with ⟨hne, _⟩ | hio | ⟨_, d, htrue, hdriver⟩
    · exact absurd h hne
    · rw [hio] at h
      cases h
    · unfold prepare_open
      rw [hdriver, hidle d value htrue]
      split <;> rfl

end Uart

/-! ## Requests -/

section Requests

variable [StreamBackend β] [UploadService υ] {c : Ctx β υ}

theorem acquire_error_failed {r : BackendResult} (hne : r ≠ .ok) (h : result_refuses r = false) :
    Ctx.acquire_error (stream_result r) = "io_error" := by
  cases r with
  | ok => exact absurd rfl hne
  | io_error => rfl
  | _ => cases h

theorem backend_error_failed {r : BackendResult} (h : result_refuses r = false) :
    Ctx.backend_error r = "io_error" := by
  cases r with
  | ok | io_error => rfl
  | _ => cases h

/-- The configuration step of an acquire: it has changed nothing, or it went through and the
backend can be opened, or it failed. -/
theorem acquire_configure_cases (hpolite : Polite β) (k : Channel β)
    (configuration : Option SerialConfiguration) :
    (k.acquire_configure configuration).2 = k ∨
      (k.acquire_configure configuration).1 = .ok ∧ result_refuses
        (StreamBackend.prepare_open (k.acquire_configure configuration).2.backend).1 = false ∨
      (k.acquire_configure configuration).1 = .io_error := by
  cases configuration with
  | none => exact .inl rfl
  | some value =>
    change { k with backend := (StreamBackend.configure k.backend value).2 } = k ∨
      (StreamBackend.configure k.backend value).1 = .ok ∧ result_refuses
        (StreamBackend.prepare_open (StreamBackend.configure k.backend value).2).1 = false ∨
      (StreamBackend.configure k.backend value).1 = .io_error
    cases hr : (StreamBackend.configure k.backend value).1 with
    | ok => exact .inr (.inl ⟨rfl, hpolite.configured _ _ hr⟩)
    | io_error => exact .inr (.inr rfl)
    | _ => exact .inl (by rw [hpolite.configure _ _ (by rw [hr]; rfl)])

theorem acquire_configure_stream (k : Channel β) (configuration : Option SerialConfiguration) :
    (k.acquire_configure configuration).2.stream = k.stream := by
  cases configuration with
  | none => rfl
  | some value => rfl

/-- An acquire that was refused has changed nothing. -/
theorem acquire_cases (hpolite : Polite β) (k : Channel β) (owner now : UInt32)
    (configuration : Option SerialConfiguration) :
    (k.acquire owner now configuration).2 = k ∨ (k.acquire owner now configuration).1 = .ok ∨
      Ctx.acquire_error (k.acquire owner now configuration).1 = "io_error" := by
  have hstream := acquire_configure_stream k configuration
  have hcases := acquire_configure_cases hpolite k configuration
  unfold Channel.acquire
  split
  · exact .inl rfl
  next hfree =>
  rw [not_not] at hfree
  simp only
  generalize k.acquire_configure configuration = configured at hstream hcases
  split
  next hne =>
    rcases hcases with hsame | ⟨hok, _⟩ | hio
    · exact .inl hsame
    · exact absurd hok hne
    · exact .inr (.inr (by rw [hio]; rfl))
  next hok =>
  rw [not_not] at hok
  split
  next hne =>
    rcases hcases with hsame | ⟨_, hopens⟩ | hio
    · exact .inl (by rw [hpolite.prepare, hsame])
    · exact .inr (.inr (acquire_error_failed hne hopens))
    · rw [hio] at hok
      cases hok
  -- The stream is free, so only a zero token can be refused here.
  unfold Stream.open_for
  rw [hstream, hfree]
  by_cases hzero : owner = 0
  · simp only [if_pos hzero]
    exact .inr (.inr rfl)
  · simp [hzero]

/-- A configure that was refused has changed nothing. -/
theorem configure_cases (hpolite : Polite β) (k : Channel β) (owner : UInt32)
    (configuration : SerialConfiguration) :
    (k.configure owner configuration).2 = k ∨
      result_refuses (k.configure owner configuration).1 = false := by
  unfold Channel.configure
  split
  · exact .inl rfl
  split
  · exact .inl rfl
  simp only
  by_cases hr : result_refuses (StreamBackend.configure k.backend configuration).1 = true
  · exact .inl (by rw [hpolite.configure _ _ hr])
  · exact .inr (by simpa using hr)

theorem description_verdict {body : List Byte} (hbody : c.description = some body) :
    verdict body = 0x74 := by
  unfold Ctx.description at hbody
  simp only at hbody
  split at hbody
  · obtain ⟨configuration, _, rfl⟩ := Option.map_eq_some_iff.mp hbody
    exact verdict_hello_uart _ _ _ _ _
  · cases hbody
    exact verdict_hello_application _ _ _ _

/-- **A refusal comes before any change**, or the backend or the service that refused has made
none. -/
theorem refused_unperformed (hpolite : Polite β) (hatomic : Managed.Atomic c.upload) {now : UInt32}
    {e : Option Errand} {turn : Bool} {reply : Ctx.Reply}
    (ho : Ctx.Follows c now e (.replied turn reply)) {limit : ℕ} {code : String}
    (hcode : code ∈ refusals) (h : reply.payload limit = error_body code) : c.perform now e = c := by
  have hsuccess : success_body ≠ error_body code := by
    intro hsame
    have hverdict := verdict_success
    rw [hsame, verdict_error] at hverdict
    cases hverdict
  cases ho with
  | refused | unfit | counted | asked => rfl
  | called _ call =>
    obtain ⟨hne, hr⟩ := upload_refuses hcode h
    simp only [Ctx.perform]
    rw [(hatomic.1 call c.session.owner hne (spoils_eq_false hr)).1]
  | described description =>
    exact absurd h (bounded_no_refusal (description_verdict description) limit hcode)
  | reported m =>
    exact absurd h (bounded_no_refusal (verdict_diagnostics _ _ _ _ _ _) limit hcode)
  | configured value => exact absurd h (bounded_no_refusal (verdict_configure _) limit hcode)
  | acquired | released => exact absurd h hsuccess
  | @denied configuration hfailed =>
    rcases acquire_cases hpolite c.channel c.session.owner now configuration with hsame | hok | hio
    · simp only [Ctx.perform]
      rw [decide_eq_false hfailed, Bool.or_false, hsame]
    · exact absurd hok hfailed
    · exact absurd (error_body_inj (hio ▸ h)) (io_error_no_refusal code hcode)
  | @misconfigured configuration hfailed =>
    rcases configure_cases hpolite c.channel c.session.owner configuration with hsame | hio
    · simp only [Ctx.perform]
      rw [hsame]
    · exact absurd (error_body_inj (backend_error_failed hio ▸ h)) (io_error_no_refusal code hcode)

/-- Malformed JSON is answered by `invalid_argument`, if at all. -/
theorem dismissed_code (now : UInt32) {id : ℕ} {code : String} (hcode : code ∈ refusals)
    (h : Answers (c.settle now id .dismissed) id (error_body code)) : code = "invalid_argument" := by
  have hascii : ∀ refusal ∈ refusals, ascii "invalid_argument" = ascii refusal →
      refusal = "invalid_argument" := by decide +kernel
  have hout : (c.settle now id .dismissed).session.output
      = (c.say id (.error "invalid_argument")).session.output := rfl
  rcases c.say_cases id (.error "invalid_argument") with hended | ⟨-, -, -, hheld⟩
  · rw [hended] at hout
    exact absurd (h.symm.trans hout) (Receiver.wire_ne_nil _)
  · rw [hheld] at hout
    exact hascii code hcode (error_body_inj (wire_body (hout.symm.trans h)))

end Requests

/-! ## Whole dispatches -/

/-- Dispatching a complete request or upload frame: if it is refused, nothing has changed.
The answer to malformed JSON is the exception. -/
def Harmless [StreamBackend β] [UploadService υ] (c : Ctx β υ) : Prop :=
  ∀ (now : UInt32) (memory : Option MemorySamples) (code : String),
    c.session.decoder.state = .ready →
    c.session.decoder.type = .request ∨ c.session.decoder.type = .upload →
    code ∈ refusals →
    (code = "invalid_argument" → c.session.decoder.type = .upload ∨
      (Json.Document.parse c.session.decoder.payload).isSome = true) →
    Answers (c.dispatch now memory) c.session.decoder.request (error_body code) →
    Unchanged c (c.dispatch now memory)

/-- With a polite backend and an atomic service, no refusal changes anything. -/
theorem harmless [StreamBackend β] [UploadService υ] (hpolite : Polite β) {c : Ctx β υ}
    (hatomic : Managed.Atomic c.upload) : Harmless c := by
  intro now memory code _ htype hcode hvalid hanswers
  obtain ⟨o, ho, heq⟩ := Ctx.dispatch_settles now memory htype
  rw [heq] at hanswers ⊢
  cases o with
  | abandoned => exact absurd hanswers.symm (Receiver.wire_ne_nil _)
  | dismissed =>
    -- only malformed JSON is dismissed, and its answer is the one exception
    generalize c.errand memory = e at ho hanswers
    cases ho with
    | malformed hrequest hmalformed =>
      have hexcept := hvalid (dismissed_code now hcode hanswers)
      rw [hrequest, hmalformed] at hexcept
      simp at hexcept
  | replied turn reply =>
    rcases replied_cases (c.perform now (c.errand memory)) now c.session.decoder.request turn reply with
      hsilent | ⟨hsent, hunchanged⟩
    · exact absurd (hanswers.symm.trans hsilent) (Receiver.wire_ne_nil _)
    · have hpayload := wire_body (hsent.symm.trans hanswers)
      rw [refused_unperformed hpolite hatomic ho hcode hpayload] at hunchanged ⊢
      exact hunchanged

/-- **A rejected request has no side effect**, over the application and the UART backend, with
either upload service. -/
theorem rejected_request_changes_nothing {δ : Type} [UartDriver δ] (hidle : LeavesIdle δ) :
    (∀ c : Ctx ApplicationEndpoint Managed.FmgoUpload, Harmless c) ∧
      (∀ c : Ctx ApplicationEndpoint Managed.Stateful.Upload, Harmless c) ∧
      (∀ c : Ctx (UartBackend δ) Managed.FmgoUpload, Harmless c) ∧
      ∀ c : Ctx (UartBackend δ) Managed.Stateful.Upload, Harmless c :=
  ⟨fun c => harmless ApplicationEndpoint.polite (Managed.FmgoUpload.atomic c.upload),
    fun c => harmless ApplicationEndpoint.polite (Managed.Stateful.Upload.atomic c.upload),
    fun c => harmless (UartBackend.polite hidle) (Managed.FmgoUpload.atomic c.upload),
    fun c => harmless (UartBackend.polite hidle) (Managed.Stateful.Upload.atomic c.upload)⟩

/-- The owner of a UART channel asks for a rate the backend does not have. -/
def misconfiguring : Ctx (UartBackend QuietLine) Managed.FmgoUpload where
  session := { Session.construct System.sample_identity 1 0 none with
    negotiated := true
    owned := true
    decoder := (({} : Decoder).feed (header .request 7 128)).feed
      (ascii ("\x7b\"op\":\"serial.configure\",\"channel_id\":1,\"config\":\x7b\"baud\":299,\"data_bits\":8,"
        ++ "\"parity\":\"none\",\"stop_bits\":1,\"flow_control\":\"none\"\x7d\x7d")) }
  channel := { backend := configured_line, stream := { idle_timeout_ms := 0, owner := 1 } }
  upload := { api := 0 }

theorem rejected_request_changes_nothing_rate :
    Answers (misconfiguring.dispatch 0 none) misconfiguring.session.decoder.request
        (error_body "invalid_argument") ∧
      Unchanged misconfiguring (misconfiguring.dispatch 0 none) := by
  have hanswers : Answers (misconfiguring.dispatch 0 none) misconfiguring.session.decoder.request
      (error_body "invalid_argument") := by
    unfold Answers
    decide +kernel
  have hidle : LeavesIdle QuietLine := fun _ _ _ => rfl
  exact ⟨hanswers, (rejected_request_changes_nothing hidle).2.2.1 misconfiguring 0 none "invalid_argument"
    (by decide +kernel) (.inl (by decide +kernel)) (by decide) (fun _ => .inr (by decide +kernel)) hanswers⟩

end Firmingo
