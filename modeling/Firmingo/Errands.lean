/-
A dispatch, taken apart: what the frame orders, what is replied, and how it ends.

`Session::dispatch` is a tree of tests with a call or a reply at each leaf. This file puts it
into one form. A control frame names at most one call: of the upload service, of the channel,
or of the backend through the channel. The call is read off the frame together with the tests
that let it through (`errand`) and made by `perform`; what is left is one of a few outcomes.
`dispatch_settles` says that a dispatch is just that, and whatever holds of a dispatch is read
off this form: the tree itself is walked here and nowhere else.

Nothing here looks into the dispatch to say what it should do: the errand is read from the
frame, and the call it stands for is written out a second time in `perform`.
-/
import Firmingo.Session

set_option autoImplicit false

open Octets

namespace Firmingo

open Protocol

/-! ## Errands -/

/-- The calls of the service that may change it. -/
inductive UploadCall
  | begin (size : ℕ) (digest : List Byte)
  | chunk (id offset : ℕ) (data : List Byte)
  | finish (id : ℕ)
  | commit (id : ℕ)
  | abort (id : ℕ)
  deriving DecidableEq, Repr

/-- The calls that are only made while nobody owns the channel. -/
def UploadCall.exclusive : UploadCall → Bool
  | .begin _ _ | .commit _ => true
  | _ => false

/-- What a control frame may order. -/
inductive Errand
  | service (call : UploadCall)
  | status (id : ℕ)
  | negotiate (offer : ℕ)
  | acquire (configuration : Option SerialConfiguration)
  | configure (configuration : SerialConfiguration)
  | release
  | report
  deriving DecidableEq, Repr

/-- The call an upload method names. -/
def UploadRequest.errand (r : UploadRequest) : Errand :=
  match r.method with
  | .begin => .service (.begin r.size r.digest)
  | .status => .status r.id
  | .finish => .service (.finish r.id)
  | .commit => .service (.commit r.id)
  | .abort => .service (.abort r.id)

/-- The call a request names; reading the counters is none. -/
def Request.errand (r : Request) : Option Errand :=
  match r.command with
  | .hello => some (.negotiate r.offer)
  | .device_diagnostics => some .report
  | .serial_open => some (.acquire (if r.config_nonempty then some r.configuration else none))
  | .serial_configure => some (.configure r.configuration)
  | .serial_close => some .release
  | _ => none

variable {β υ : Type} [StreamBackend β] [UploadService υ]

def UploadCall.run (u : υ) (t : UInt32) : UploadCall → UploadAnswer × υ
  | .begin size digest => UploadService.begin u t size digest
  | .chunk id offset data => UploadService.chunk u t id offset data
  | .finish id => UploadService.finish u t id
  | .commit id => UploadService.commit u t id
  | .abort id => UploadService.abort u t id

namespace Ctx

/-- An upload frame is let through: after hello, by a session with a target, with data and
not too much of it. -/
def admits_chunk (c : Ctx β υ) : Bool :=
  c.session.negotiated && c.session.has_upload && decide (8 < c.session.decoder.size) &&
    decide (c.session.decoder.size ≤ 8 + (UploadService.target υ).max_chunk)

/-- An upload method is let through: after hello, by a session with a target, for that
target, board and format, and while nobody has the channel if it must not be disturbed. -/
def admits_upload (c : Ctx β υ) (r : UploadRequest) : Bool :=
  c.session.negotiated && c.session.has_upload &&
    decide (r.target = (UploadService.target υ).id) &&
    decide (r.method = .begin → r.board = c.session.identity.board_id ∧
      some r.format = (UploadService.target υ).format) &&
    decide (r.method = .begin ∨ r.method = .commit → c.channel.owner = 0)

/-- A UART is configured in full. -/
def configurable (c : Ctx β υ) (r : Request) : Bool :=
  decide (StreamBackend.kind c.channel.backend = .uart → r.config_complete = true)

/-- A request is let through. -/
def admits (c : Ctx β υ) (memory : Option MemorySamples) (r : Request) : Bool :=
  match r.command with
  | .hello => !c.session.negotiated
  | .device_diagnostics => c.session.negotiated && memory.any fun m => decide (m.count ≠ 0)
  | .serial_open =>
    c.session.negotiated && decide (r.channel = 1) && !c.session.owned &&
      !(c.session.has_upload && UploadService.blocks_console c.upload) &&
      (!r.config_nonempty || c.configurable r)
  | .serial_configure =>
    c.session.negotiated && decide (r.channel = 1) && c.session.owned && c.configurable r
  | .serial_close => c.session.negotiated && decide (r.channel = 1) && c.session.owned
  | _ => false

/-- The errand of a document, if it is let through. -/
def document_errand (c : Ctx β υ) (memory : Option MemorySamples) (d : Json.Document) :
    Option Errand :=
  match (if c.session.has_upload then upload_method d else none) with
  | some method => ((upload_request d method).filter c.admits_upload).map UploadRequest.errand
  | none => ((request d).filter (c.admits memory)).bind Request.errand

/-- The upload frame in the decoder, as a call. -/
def chunk_call (c : Ctx β υ) : UploadCall :=
  .chunk (word32_be c.session.decoder.payload) (word32_be (c.session.decoder.payload.drop 4))
    (c.session.decoder.payload.drop 8)

/-- The errand of the frame in the decoder, if it is let through. -/
def errand (c : Ctx β υ) (memory : Option MemorySamples) : Option Errand :=
  match c.session.decoder.type with
  | .upload => if c.admits_chunk then some (.service c.chunk_call) else none
  | .request => (Json.Document.parse c.session.decoder.payload).bind (c.document_errand memory)
  | _ => none

/-- The session and what it shares, after an errand. -/
def perform (c : Ctx β υ) (now : UInt32) : Option Errand → Ctx β υ
  | none | some (.status _) => c
  | some (.service call) => { c with upload := (call.run c.upload c.session.owner).2 }
  | some (.negotiate offer) =>
    match c.session.decoder.reset.negotiate offer with
    | none => c.reset_decoder
    | some decoder =>
      { c with session := { c.session with decoder := decoder, negotiated := true } }
  | some (.acquire configuration) =>
    let acquired := c.channel.acquire c.session.owner now configuration
    { c with
      channel := acquired.2
      session := { c.session with owned := c.session.owned || decide (acquired.1 = .ok) } }
  | some (.configure configuration) =>
    { c with channel := (c.channel.configure c.session.owner configuration).2 }
  | some .release => { c with
      channel := c.channel.release c.session.owner
      session := { c.session with owned := false } }
  | some .report => { c with channel := { c.channel with
      backend := (StreamBackend.diagnostics c.channel.backend).2 } }

/-- What an errand may change in the session itself. -/
theorem perform_session (c : Ctx β υ) (now : UInt32) (e : Option Errand) :
    (c.perform now e).session = { c.session with
      decoder := (c.perform now e).session.decoder
      negotiated := (c.perform now e).session.negotiated
      owned := (c.perform now e).session.owned } := by
  rcases e with _ | e
  · rfl
  cases e with
  | negotiate offer =>
    simp only [perform]
    split <;> rfl
  | _ => rfl

/-! ## Replies -/

/-- What a session may say to a control frame. -/
inductive Reply
  | error (code : String)
  | success
  | upload (answer : UploadAnswer)
  | body (bytes : List Byte)

def say (c : Ctx β υ) (id : ℕ) : Reply → Ctx β υ
  | .error code => c.error id code
  | .success => c.success id
  | .upload answer => c.upload_response id answer
  | .body bytes => c.reply id bytes

/-- The payload of a formatted reply: what is longer than the limit is replaced. -/
def bounded (limit : ℕ) (body : List Byte) : List Byte :=
  if body.length > limit then error_body "response_too_large" else body

/-- The payload of the response to an upload call. -/
def upload_reply (limit : ℕ) (answer : UploadAnswer) : List Byte :=
  if answer.error ≠ .none then error_body (upload_error_name answer.error)
  else bounded limit (upload_body answer.status)

def Reply.payload (limit : ℕ) : Reply → List Byte
  | .error code => error_body code
  | .success => success_body
  | .upload answer => upload_reply limit answer
  | .body bytes => bounded limit bytes

/-- The state after a frame was queued. -/
def holding (c : Ctx β υ) (f : Frame) : Ctx β υ :=
  { c with session := { c.session with output := wire f } }.record
    (.queued c.session.owner f c.limit)

/-- What becomes of a frame for the peer: it ends the session, or it is what is sent. -/
def Queued (c : Ctx β υ) (f : Frame) (c' : Ctx β υ) : Prop :=
  c' = c.finish .io_error ∨ c.session.output = [] ∧ f.payload.length ≤ c.limit ∧
    f.payload.length ≤ Session.response_capacity ∧ c' = c.holding f

/-- What fits is queued. -/
theorem queue_eq {c : Ctx β υ} {f : Frame} (hidle : c.session.output = [])
    (hlimit : f.payload.length ≤ c.limit) (hbuffer : f.payload.length ≤ Session.response_capacity)
    (hvalid : valid_fields f.type.code f.request = true) :
    c.queue f.type f.request f.payload = c.holding f := by
  have henc : encode Session.output_capacity f.type f.request f.payload = some (wire f) := by
    have hmax : ¬ f.payload.length > max_payload := by
      have : Session.response_capacity ≤ max_payload := by decide
      omega
    have hcap : ¬ Session.output_capacity < header_size + f.payload.length := by
      rw [Session.output_capacity]
      omega
    simp [encode, hmax, hcap, hvalid, wire]
  unfold queue
  rw [if_neg (by simp [hidle, hlimit]), henc]
  rfl

theorem valid_response {id : ℕ} (hid : id ≠ 0) : valid_fields FrameType.response.code id = true := by
  simp [valid_fields, FrameType.code, hid]

/-- A reply that fits the buffer and the limit of a session with nothing to send is
what it sends. -/
theorem reply_fits {c : Ctx β υ} {id : ℕ} {body : List Byte} (hidle : c.session.output = [])
    (hid : id ≠ 0) (hlimit : body.length ≤ c.limit) (hbuffer : body.length ≤ Session.response_capacity) :
    c.reply id body = c.holding ⟨.response, id, body⟩ := by
  unfold reply
  rw [if_neg (by omega), if_neg (by omega)]
  exact queue_eq (f := ⟨.response, id, body⟩) hidle hlimit hbuffer (valid_response hid)

/-- An error code short enough for its buffer fits every limit. -/
theorem error_fits {c : Ctx β υ} {id : ℕ} {code : String} (hidle : c.session.output = []) (hid : id ≠ 0)
    (hmin : min_offer ≤ c.limit) (hlength : (error_body code).length < Session.error_capacity) :
    c.error id code = c.holding ⟨.response, id, error_body code⟩ := by
  unfold error
  rw [if_neg (by omega)]
  simp only [Session.error_capacity] at hlength
  have hlimit : (error_body code).length ≤ c.limit := by
    simp only [min_offer] at hmin
    omega
  have hbuffer : (error_body code).length ≤ Session.response_capacity := by
    simp only [Session.response_capacity]
    omega
  exact queue_eq (f := ⟨.response, id, error_body code⟩) hidle hlimit hbuffer (valid_response hid)

/-- A reply that fits the buffer and not the limit is replaced by an error. -/
theorem reply_too_large {c : Ctx β υ} {id : ℕ} {body : List Byte} (hidle : c.session.output = [])
    (hid : id ≠ 0) (hmin : min_offer ≤ c.limit) (hlimit : c.limit < body.length)
    (hbuffer : body.length ≤ Session.response_capacity) :
    c.reply id body = c.holding ⟨.response, id, error_body "response_too_large"⟩ := by
  unfold reply
  rw [if_neg (by omega), if_pos (by omega)]
  exact error_fits hidle hid hmin (by decide +kernel)

/-- `queue` queues the frame or ends the session. -/
theorem queue_cases (c : Ctx β υ) (f : Frame) : c.Queued f (c.queue f.type f.request f.payload) := by
  by_cases hfit : c.session.output = [] ∧ f.payload.length ≤ c.limit
  swap
  · refine .inl ?_
    unfold queue
    rw [if_pos]
    simp only [ne_eq, Bool.or_eq_true, decide_eq_true_eq, gt_iff_lt]
    by_cases hidle : c.session.output = []
    · exact .inr (not_le.mp fun hle => hfit ⟨hidle, hle⟩)
    · exact .inl hidle
  cases henc : encode Session.output_capacity f.type f.request f.payload with
  | none =>
    refine .inl ?_
    unfold queue
    rw [if_neg (by simp [hfit.1, hfit.2]), henc]
  | some bytes =>
    have hne : ¬ (_ : Bool) := fun h => by rw [encode, if_pos h] at henc; cases henc
    simp only [Bool.or_eq_true, decide_eq_true_eq, not_or, not_lt, gt_iff_lt,
      Bool.not_eq_eq_eq_not, Bool.not_true, Bool.not_eq_false] at hne
    have hbuffer : f.payload.length ≤ Session.response_capacity := by
      have := hne.1.2
      simp only [Session.output_capacity] at this
      omega
    exact .inr ⟨hfit.1, hfit.2, hbuffer, queue_eq hfit.1 hfit.2 hbuffer hne.2⟩

theorem error_cases (c : Ctx β υ) (id : ℕ) (code : String) :
    c.Queued ⟨.response, id, error_body code⟩ (c.error id code) := by
  unfold error
  split
  · exact .inl rfl
  · exact queue_cases c ⟨.response, id, error_body code⟩

theorem reply_cases (c : Ctx β υ) (id : ℕ) (body : List Byte) :
    c.Queued ⟨.response, id, bounded c.limit body⟩ (c.reply id body) := by
  unfold reply
  split
  · exact .inl rfl
  split
  · next hlong =>
    rw [bounded, if_pos hlong]
    exact error_cases c id _
  · next hshort =>
    rw [bounded, if_neg hshort]
    exact queue_cases c ⟨.response, id, body⟩

/-- **Every reply is queued, or ends the session.** -/
theorem say_cases (c : Ctx β υ) (id : ℕ) (r : Reply) :
    c.Queued ⟨.response, id, r.payload c.limit⟩ (c.say id r) := by
  cases r with
  | error code => exact error_cases c id code
  | success => exact queue_cases c ⟨.response, id, success_body⟩
  | upload answer =>
    simp only [say, upload_response, Reply.payload, upload_reply]
    split
    · exact error_cases c id _
    · exact reply_cases c id _
  | body bytes => exact reply_cases c id bytes

/-! ## Outcomes -/

/-- How a dispatch ends: with a reply, after which it may be the stream's turn; with the reply
to malformed JSON; or with the end of a session that cannot say what it should. -/
inductive Outcome
  | replied (turn : Bool) (reply : Reply)
  | dismissed
  | abandoned

def settle (c : Ctx β υ) (now : UInt32) (id : ℕ) : Outcome → Ctx β υ
  | .replied true reply => (c.say id reply).conclude
  | .replied false reply => (c.say id reply).reset_decoder
  | .dismissed =>
    let c := (c.say id (.error "invalid_argument")).reset_decoder.let_go
    { c with session := { c.session with closing := true, closing_at := now } }
  | .abandoned => c.finish .io_error

/-- The error codes that are the session's own. -/
def session_codes : List String :=
  ["invalid_argument", "invalid_state", "unsupported", "wrong_target", "busy", "io_error",
    "response_too_large"]

/-- The diagnostics of a session whose backend has reported. -/
def report_body (c : Ctx β υ) (m : MemorySamples) (d : Option BackendDiagnostics) : List Byte :=
  diagnostics_body m c.channel.peak_rx c.channel.peak_tx (StreamBackend.kind c.channel.backend) d
    (c.sketch_fields d)

/-- The outcomes of an errand, or of a frame without one. -/
inductive Follows (c : Ctx β υ) (now : UInt32) : Option Errand → Outcome → Prop
  /-- The session's own errors. -/
  | refused (turn : Bool) {code : String} (known : code ∈ session_codes) :
      Follows c now none (.replied turn (.error code))
  | unfit (error : UploadError) : Follows c now none (.replied false (.upload { error := error }))
  | malformed (type : c.session.decoder.type = .request)
      (malformed : Json.Document.parse c.session.decoder.payload = none) :
      Follows c now none .dismissed
  /-- The counters, which nobody is asked for. -/
  | counted : Follows c now none (.replied true (.body (status_body c.channel.rx_bytes
      c.channel.tx_bytes c.channel.pending_rx c.channel.pending_tx)))
  /-- The words of the upload service. -/
  | called (turn : Bool) (call : UploadCall) : Follows c now (some (.service call))
      (.replied turn (.upload (call.run c.upload c.session.owner).1))
  | asked (id : ℕ) : Follows c now (some (.status id))
      (.replied true (.upload (UploadService.status c.upload id)))
  /-- The description that ends a hello. -/
  | described {offer : ℕ} {body : List Byte}
      (description : (c.perform now (some (.negotiate offer))).description = some body) :
      Follows c now (some (.negotiate offer)) (.replied true (.body body))
  | reported (m : MemorySamples) : Follows c now (some .report) (.replied true (.body
      ((c.perform now (some .report)).report_body m (StreamBackend.diagnostics c.channel.backend).1)))
  /-- What came of a call of the channel. -/
  | acquired {configuration : Option SerialConfiguration}
      (ok : (c.channel.acquire c.session.owner now configuration).1 = .ok) :
      Follows c now (some (.acquire configuration)) (.replied true .success)
  | denied {configuration : Option SerialConfiguration}
      (failed : (c.channel.acquire c.session.owner now configuration).1 ≠ .ok) :
      Follows c now (some (.acquire configuration)) (.replied true
        (.error (acquire_error (c.channel.acquire c.session.owner now configuration).1)))
  | configured {configuration : SerialConfiguration} (value : SerialConfiguration) :
      Follows c now (some (.configure configuration)) (.replied true (.body (configure_body value)))
  | misconfigured {configuration : SerialConfiguration}
      (failed : (c.channel.configure c.session.owner configuration).1 ≠ .ok) :
      Follows c now (some (.configure configuration)) (.replied true
        (.error (backend_error (c.channel.configure c.session.owner configuration).1)))
  | released : Follows c now (some .release) (.replied true .success)
  /-- What was asked for cannot be written. -/
  | abandoned (e : Errand) : Follows c now (some e) .abandoned

/-- **The form of a dispatch**: the errand of its frame, and one outcome. -/
def Settles (c : Ctx β υ) (now : UInt32) (memory : Option MemorySamples) (c' : Ctx β υ) : Prop :=
  ∃ o, Follows c now (c.errand memory) o ∧
    c' = (c.perform now (c.errand memory)).settle now c.session.decoder.request o

/-! ## The tests of a dispatch -/

variable {c : Ctx β υ} {now : UInt32} {memory : Option MemorySamples}

/-- Without an errand the session is as it was. -/
theorem settles_refused {o : Outcome} (hnone : c.errand memory = none) (ho : Follows c now none o) :
    Settles c now memory (c.settle now c.session.decoder.request o) := by
  refine ⟨o, by rw [hnone]; exact ho, ?_⟩
  rw [hnone]
  rfl

theorem settles_errand {e : Errand} {o : Outcome} (hsome : c.errand memory = some e)
    (ho : Follows c now (some e) o) :
    Settles c now memory ((c.perform now (some e)).settle now c.session.decoder.request o) := by
  refine ⟨o, by rw [hsome]; exact ho, ?_⟩
  rw [hsome]

omit [StreamBackend β] in
/-- The test of the source, which subtracts, is the one that adds. -/
theorem chunk_test_eq (c : Ctx β υ) :
    (c.session.negotiated && c.session.has_upload && decide (c.session.decoder.size > 8) &&
      decide (c.session.decoder.size - 8 ≤ (UploadService.target υ).max_chunk)) = c.admits_chunk := by
  unfold admits_chunk
  congr 1
  exact decide_eq_decide.mpr (by omega)

omit [StreamBackend β] in
/-- The tests of `dispatch_upload`, in one. -/
theorem admits_upload_iff (c : Ctx β υ) (r : UploadRequest) :
    c.admits_upload r = true ↔ c.session.negotiated = true ∧ c.session.has_upload = true ∧
      (r.target ≠ (UploadService.target υ).id || (r.method = .begin &&
        (r.board ≠ c.session.identity.board_id || some r.format ≠ (UploadService.target υ).format)))
        = false ∧
      ((r.method = .begin || r.method = .commit) && c.channel.owner ≠ 0) = false := by
  simp only [admits_upload, Bool.and_eq_true, decide_eq_true_eq, Bool.or_eq_false_iff,
    Bool.and_eq_false_iff, decide_eq_false_iff_not]
  tauto

/-- Where an errand comes from. -/
theorem errand_cases {e : Errand} (h : c.errand memory = some e) :
    c.admits_chunk = true ∧ e = .service c.chunk_call ∨
      (∃ d method r, upload_request d method = some r ∧ c.admits_upload r = true ∧ e = r.errand) ∨
      ∃ r : Request, c.admits memory r = true ∧ r.errand = some e := by
  unfold errand at h
  split at h
  · split at h
    · next hadmits =>
      cases h
      exact .inl ⟨hadmits, rfl⟩
    · cases h
  · obtain ⟨d, -, h⟩ := Option.bind_eq_some_iff.mp h
    unfold document_errand at h
    split at h
    · next method _ =>
      obtain ⟨r, hr, rfl⟩ := Option.map_eq_some_iff.mp h
      obtain ⟨hsome, hadmits⟩ := Option.filter_eq_some_iff.mp hr
      exact .inr (.inl ⟨d, method, r, hsome, hadmits, rfl⟩)
    · obtain ⟨r, hr, he⟩ := Option.bind_eq_some_iff.mp h
      exact .inr (.inr ⟨r, (Option.filter_eq_some_iff.mp hr).2, he⟩)
  · cases h

/-- What has been tested before an errand. -/
def Permits (c : Ctx β υ) : Errand → Prop
  | .service call => c.session.has_upload = true ∧ (call.exclusive = true → c.channel.stream.owner = 0)
  | .acquire _ => c.session.owned = false ∧
      (c.session.has_upload = true → UploadService.blocks_console c.upload = false)
  | .configure _ | .release => c.session.owned = true
  | _ => True

omit [StreamBackend β] in
theorem permits_chunk (h : c.admits_chunk = true) : c.Permits (.service c.chunk_call) := by
  simp only [admits_chunk, Bool.and_eq_true] at h
  exact ⟨h.1.1.2, fun hno => by cases hno⟩

omit [StreamBackend β] in
/-- What the checks of an upload frame let through is permitted. -/
theorem permits_upload {r : UploadRequest} (h : c.admits_upload r = true) : c.Permits r.errand := by
  simp only [admits_upload, Bool.and_eq_true, decide_eq_true_eq] at h
  obtain ⟨⟨⟨⟨-, has⟩, -⟩, -⟩, hfree⟩ := h
  unfold UploadRequest.errand
  cases hmethod : r.method with
  | begin => exact ⟨has, fun _ => hfree (.inl hmethod)⟩
  | commit => exact ⟨has, fun _ => hfree (.inr hmethod)⟩
  | status => trivial
  | finish | abort => exact ⟨has, fun hno => by cases hno⟩

/-- What the checks of a request let through is permitted. -/
theorem permits_request {r : Request} {e : Errand} (h : c.admits memory r = true)
    (he : r.errand = some e) : c.Permits e := by
  unfold Request.errand at he
  unfold admits at h
  cases hcommand : r.command with
  | hello | device_diagnostics =>
    simp only [hcommand] at he
    cases he
    trivial
  | serial_open =>
    simp only [hcommand, Bool.and_eq_true, Bool.not_eq_true'] at he h
    cases he
    refine ⟨h.1.1.2, fun has => ?_⟩
    have hblocks := h.1.2
    rwa [has, Bool.true_and] at hblocks
  | serial_configure =>
    simp only [hcommand, Bool.and_eq_true] at he h
    cases he
    exact h.1.2
  | serial_close =>
    simp only [hcommand, Bool.and_eq_true] at he h
    cases he
    exact h.2
  | unknown | device_reset | serial_control | serial_status =>
    simp only [hcommand] at he
    cases he

/-- **An errand is run after its tests.** -/
theorem errand_permitted {e : Errand} (h : c.errand memory = some e) : c.Permits e := by
  rcases errand_cases h with ⟨hadmits, rfl⟩ | ⟨_, _, _, -, hadmits, rfl⟩ | ⟨r, hadmits, he⟩
  · exact permits_chunk hadmits
  · exact permits_upload hadmits
  · exact permits_request hadmits he

/-! ## The walk -/

/-- An upload frame. -/
theorem dispatch_chunk_settles (htype : c.session.decoder.type = .upload) :
    Settles c now memory c.dispatch_chunk := by
  have herrand : c.errand memory =
      if c.admits_chunk then some (.service c.chunk_call) else none := by
    unfold errand
    rw [htype]
  unfold dispatch_chunk
  simp only [chunk_test_eq]
  split
  · next hadmits =>
    rw [if_pos hadmits] at herrand
    exact settles_errand herrand (.called false c.chunk_call)
  · next hrefused =>
    rw [if_neg hrefused] at herrand
    -- the service is not asked: the error is the session's own
    exact settles_refused herrand (.unfit _)

/-- An upload method. -/
theorem dispatch_upload_settles {d : Json.Document} {method : UploadMethod}
    (herrand : c.errand memory
      = ((upload_request d method).filter c.admits_upload).map UploadRequest.errand) :
    Settles c now memory (c.dispatch_upload d method).conclude := by
  unfold dispatch_upload
  simp only
  split
  · next hnone =>
    rw [hnone] at herrand
    exact settles_refused herrand (.refused true (by decide))
  next r hsome =>
  rw [hsome, Option.filter_some] at herrand
  have hrefused : ∀ code ∈ session_codes, c.admits_upload r ≠ true →
      Settles c now memory (c.error c.session.decoder.request code).conclude := by
    intro code hcode hno
    rw [if_neg hno] at herrand
    exact settles_refused herrand (.refused true hcode)
  rw [ne_eq, admits_upload_iff] at hrefused
  split
  · next hno => exact hrefused _ (by decide) fun h => by simp [h.1] at hno
  split
  · next hno => exact hrefused _ (by decide) fun h => by simp [h.2.1] at hno
  split
  · next hno => exact hrefused _ (by decide) fun h => by rw [h.2.2.1] at hno; cases hno
  split
  · next hno => exact hrefused _ (by decide) fun h => by rw [h.2.2.2] at hno; cases hno
  next hneg hhas htarget hfree =>
  have hadmits : c.admits_upload r = true :=
    (admits_upload_iff c r).mpr ⟨by simpa using hneg, by simpa using hhas,
      Bool.not_eq_true _ ▸ htarget, Bool.not_eq_true _ ▸ hfree⟩
  rw [if_pos hadmits, Option.map_some, UploadRequest.errand] at herrand
  unfold call_upload
  cases hmethod : r.method with
  | status =>
    rw [hmethod] at herrand
    exact settles_errand herrand (.asked r.id)
  | begin | finish | commit | abort =>
    rw [hmethod] at herrand
    exact settles_errand herrand (.called true _)

section Commands

variable {r : Request} (herrand : c.errand memory = if c.admits memory r then r.errand else none)
include herrand

/-- A request that is not let through. -/
theorem command_refused {code : String} (hcode : code ∈ session_codes) (hno : c.admits memory r = false) :
    Settles c now memory (c.error c.session.decoder.request code).conclude := by
  rw [if_neg (by simp [hno])] at herrand
  exact settles_refused herrand (.refused true hcode)

/-- Hello: refused once negotiated, and the end of the session where no limit can be agreed on. -/
theorem dispatch_hello_settles (hcommand : r.command = .hello) :
    Settles c now memory (c.dispatch_hello r) := by
  unfold dispatch_hello
  simp only
  split
  · next hneg => exact command_refused herrand (by decide) (by simp [admits, hcommand, hneg])
  next hneg =>
  simp only [admits, hcommand, Request.errand] at herrand
  rw [if_pos (by simpa using hneg)] at herrand
  have hsettles : ∀ {o}, Follows c now (some (.negotiate r.offer)) o →
      Settles c now memory ((c.perform now (some (.negotiate r.offer))).settle now
        c.session.decoder.request o) := settles_errand herrand
  split
  · next hdecoder =>
    have hfailed : c.perform now (some (.negotiate r.offer)) = c.reset_decoder := by
      simp only [perform, hdecoder]
    rw [← hfailed]
    exact hsettles (.abandoned _)
  next decoder hdecoder =>
  have hagreed : c.perform now (some (.negotiate r.offer)) = { c with
      session := { c.session with decoder := decoder, negotiated := true } } := by
    simp only [perform, hdecoder]
  rw [← hagreed]
  unfold describe
  split
  · exact hsettles (.abandoned _)
  split
  · exact hsettles (.abandoned _)
  · next hbody => exact hsettles (.described hbody)

/-- Diagnostics without samples are unsupported. -/
theorem dispatch_diagnostics_settles (hcommand : r.command = .device_diagnostics)
    (hneg : c.session.negotiated = true) : Settles c now memory (c.dispatch_diagnostics memory) := by
  unfold dispatch_diagnostics
  simp only
  split
  · exact command_refused herrand (by decide) (by simp [admits, hcommand])
  split
  · next hcount => exact command_refused herrand (by decide) (by simp [admits, hcommand, hcount])
  next m hcount =>
  simp only [admits, hcommand, Request.errand, hneg, Bool.true_and] at herrand
  rw [if_pos (by simpa using hcount)] at herrand
  split
  · exact settles_errand herrand (.abandoned _)
  · exact settles_errand herrand (.reported m)

/-- Opening the channel: the checks in the order of the source, then the acquisition. -/
theorem dispatch_open_settles (hcommand : r.command = .serial_open) (hneg : c.session.negotiated = true)
    (hchannel : r.channel = 1) : Settles c now memory (c.dispatch_open now r) := by
  have hrefused : ∀ code ∈ session_codes, c.admits memory r = false →
      Settles c now memory (c.error c.session.decoder.request code).conclude :=
    fun _ hcode => command_refused herrand hcode
  simp only [admits, hcommand, Request.errand, hneg, hchannel, decide_true, Bool.true_and]
    at herrand hrefused
  unfold dispatch_open
  simp only
  split
  · next howned => exact hrefused _ (by decide) (by simp [howned])
  next howned =>
  split
  · next hblocked => exact hrefused _ (by decide) (by simp [hblocked])
  next hfree =>
  split
  · next hpart =>
    refine hrefused _ (by decide) ?_
    simp only [Bool.and_eq_true, decide_eq_true_eq, Bool.not_eq_true'] at hpart
    simp [configurable, hpart]
  next hpart =>
  -- past the three checks the errand is the acquisition
  have hadmits : (!c.session.owned && !(c.session.has_upload && UploadService.blocks_console c.upload) &&
      (!r.config_nonempty || c.configurable r)) = true := by
    simp only [Bool.and_eq_true, decide_eq_true_eq, Bool.not_eq_true', not_and, Bool.not_eq_false]
      at hpart
    simp only [Bool.not_eq_true] at howned hfree
    simp only [howned, hfree, Bool.not_false, Bool.true_and, Bool.or_eq_true, Bool.not_eq_true',
      configurable, decide_eq_true_eq]
    cases hsome : r.config_nonempty with
    | false => exact .inl rfl
    | true => exact .inr fun huart => hpart ⟨huart, hsome⟩
  rw [if_pos hadmits] at herrand
  generalize (if r.config_nonempty then some r.configuration else none) = configuration at herrand ⊢
  have hperform : c.perform now (some (.acquire configuration)) = { c with
      channel := (c.channel.acquire c.session.owner now configuration).2
      session := { c.session with
        owned := c.session.owned ||
          decide ((c.channel.acquire c.session.owner now configuration).1 = .ok) } } := rfl
  split
  · next hfailed =>
    rw [decide_eq_false hfailed, Bool.or_false] at hperform
    have hdenied := settles_errand herrand (.denied hfailed)
    rwa [hperform] at hdenied
  · next hok =>
    rw [decide_eq_true (not_not.mp hok), Bool.or_true] at hperform
    have hacquired := settles_errand herrand (.acquired (not_not.mp hok))
    rwa [hperform] at hacquired

/-- Configuring the channel: a UART takes a complete configuration only. -/
theorem dispatch_configure_settles (hcommand : r.command = .serial_configure)
    (hneg : c.session.negotiated = true) (hchannel : r.channel = 1) (howned : c.session.owned = true) :
    Settles c now memory (c.dispatch_configure r) := by
  unfold dispatch_configure
  by_cases hfull : c.configurable r = true
  · simp only [admits, hcommand, Request.errand, hneg, hchannel, howned, decide_true, Bool.true_and]
      at herrand
    rw [if_pos hfull] at herrand
    have htest : (StreamBackend.kind c.channel.backend = .uart && !r.config_complete) = false := by
      simp only [configurable, decide_eq_true_eq] at hfull
      simpa using hfull
    simp only [htest, Bool.false_eq_true, if_false]
    split
    · next hfailed => exact settles_errand herrand (.misconfigured hfailed)
    split
    · exact settles_errand herrand (.abandoned _)
    · exact settles_errand herrand (.configured _)
  · have htest : (StreamBackend.kind c.channel.backend = .uart && !r.config_complete) = true := by
      simpa [configurable] using hfull
    simp only [htest, if_true]
    exact command_refused herrand (by decide) (by simp [admits, hcommand, hfull])

theorem dispatch_close_settles (hcommand : r.command = .serial_close)
    (hneg : c.session.negotiated = true) (hchannel : r.channel = 1) (howned : c.session.owned = true) :
    Settles c now memory c.dispatch_close := by
  simp only [admits, hcommand, Request.errand, hneg, hchannel, howned, decide_true, Bool.true_and,
    if_true] at herrand
  exact settles_errand herrand .released

/-- A command that only the owner of the channel has carried out. -/
theorem owner_command_settles {c' : Ctx β υ}
    (hno : r.channel ≠ 1 ∨ c.session.owned = false → c.admits memory r = false)
    (h : r.channel = 1 → c.session.owned = true → Settles c now memory c') :
    Settles c now memory
      (if r.channel ≠ 1 then (c.error c.session.decoder.request "wrong_target").conclude
      else if !c.session.owned then (c.error c.session.decoder.request "invalid_state").conclude
      else c') := by
  split
  · next hchannel => exact command_refused herrand (by decide) (hno (.inl hchannel))
  next hchannel =>
  split
  · next howned => exact command_refused herrand (by decide) (hno (.inr (by simpa using howned)))
  · next howned => exact h (not_not.mp hchannel) (by simpa using howned)

/-- Every command of a request settles on one outcome. -/
theorem dispatch_command_settles (hneg : c.session.negotiated = true ∨ r.command = .hello) :
    Settles c now memory (c.dispatch_command now memory r) := by
  have hneg' : r.command ≠ .hello → c.session.negotiated = true := hneg.resolve_right
  unfold dispatch_command
  cases hcommand : r.command with
  | hello => exact dispatch_hello_settles herrand hcommand
  | device_diagnostics =>
    exact dispatch_diagnostics_settles herrand hcommand (hneg' (by simp [hcommand]))
  | unknown | device_reset =>
    exact command_refused herrand (by decide) (by simp [admits, hcommand])
  | serial_open =>
    simp only [if_true]
    split
    · next hchannel =>
      exact command_refused herrand (by decide) (by simp [admits, hcommand, hchannel])
    · next hchannel =>
      exact dispatch_open_settles herrand hcommand (hneg' (by simp [hcommand])) (not_not.mp hchannel)
  | serial_close =>
    simp only [reduceCtorEq, if_false, if_true]
    refine owner_command_settles herrand ?_
      (dispatch_close_settles herrand hcommand (hneg' (by simp [hcommand])))
    rintro (hno | hno) <;> simp [admits, hcommand, hno]
  | serial_configure =>
    simp only [reduceCtorEq, if_false, if_true]
    refine owner_command_settles herrand ?_
      (dispatch_configure_settles herrand hcommand (hneg' (by simp [hcommand])))
    rintro (hno | hno) <;> simp [admits, hcommand, hno]
  | serial_control =>
    simp only [reduceCtorEq, if_false, if_true]
    have hno : c.admits memory r = false := by simp [admits, hcommand]
    exact owner_command_settles herrand (fun _ => hno)
      fun _ _ => command_refused herrand (by decide) hno
  | serial_status =>
    simp only [reduceCtorEq, if_false]
    have hno : c.admits memory r = false := by simp [admits, hcommand]
    refine owner_command_settles herrand (fun _ => hno) fun _ _ => ?_
    -- the counters are read, and nothing is called
    rw [if_neg (by simp [hno])] at herrand
    exact settles_refused herrand .counted

end Commands

/-- A request frame. -/
theorem dispatch_request_settles (htype : c.session.decoder.type = .request) :
    Settles c now memory (c.dispatch_request now memory) := by
  have herrand : c.errand memory
      = (Json.Document.parse c.session.decoder.payload).bind (c.document_errand memory) := by
    unfold errand
    rw [htype]
  unfold dispatch_request
  simp only
  split
  · next hmalformed =>
    rw [hmalformed] at herrand
    exact settles_refused herrand (.malformed htype hmalformed)
  next d hparse =>
  rw [hparse, Option.bind_some, document_errand] at herrand
  split
  · next method hmethod =>
    rw [hmethod] at herrand
    exact dispatch_upload_settles herrand
  next hmethod =>
  rw [hmethod] at herrand
  simp only at herrand
  split
  · next hnone =>
    rw [hnone] at herrand
    exact settles_refused herrand (.refused false (by decide))
  next r hrequest =>
  rw [hrequest, Option.filter_some] at herrand
  have herrand : c.errand memory = if c.admits memory r then r.errand else none := by
    rw [herrand]
    split <;> rfl
  split
  · next hearly =>
    -- before a hello nothing else is let through
    simp only [Bool.and_eq_true, Bool.not_eq_true', decide_eq_true_eq] at hearly
    have hno : c.admits memory r = false := by
      unfold admits
      split <;> simp_all
    rw [if_neg (by simp [hno])] at herrand
    exact settles_refused herrand (.refused false (by decide))
  · next hlate =>
    refine dispatch_command_settles herrand ?_
    simp only [Bool.and_eq_true, Bool.not_eq_true', decide_eq_true_eq, not_and, not_not] at hlate
    cases hneg : c.session.negotiated with
    | true => exact .inl rfl
    | false => exact .inr (hlate hneg)

/-- **A control frame is dispatched by its errand and one outcome.** -/
theorem dispatch_settles (now : UInt32) (memory : Option MemorySamples)
    (hcontrol : c.session.decoder.type = .request ∨ c.session.decoder.type = .upload) :
    Settles c now memory (c.dispatch now memory) := by
  unfold dispatch
  rcases hcontrol with htype | htype
  · rw [htype]
    exact dispatch_request_settles htype
  · rw [htype]
    exact dispatch_chunk_settles htype

/-- Any other frame is left to the stream, or ends the session. -/
theorem dispatch_other (now : UInt32) (memory : Option MemorySamples)
    (hcontrol : ¬ (c.session.decoder.type = .request ∨ c.session.decoder.type = .upload)) :
    c.dispatch now memory = c ∨
      ∃ result, result ≠ .running ∧ c.dispatch now memory = c.finish result := by
  rw [not_or] at hcontrol
  unfold dispatch
  cases htype : c.session.decoder.type with
  | request => exact absurd htype hcontrol.1
  | upload => exact absurd htype hcontrol.2
  | response | event => exact .inr ⟨.protocol_error, by decide, rfl⟩
  | serial =>
    simp only [dispatch_serial]
    split
    · exact .inr ⟨.protocol_error, by decide, rfl⟩
    · exact .inl rfl

end Ctx

end Firmingo
