/-
One connection: `Session` of `src/core/session.h`, `src/core/session.cpp` and
`src/core/session_upload.cpp`.

A session refers to the channel and the upload service it shares with others, so
its methods run on a `Ctx`: the session with the current state of what it refers
to. The transport is an argument of `poll`, and a poll calls each of its methods
at most once; `PollInput` is what those calls answer in one poll, together with
the time and the memory samples the session's pointer shows at that moment.

The output buffer is modelled by the bytes still to be sent
(`output_[output_offset_ .. output_offset_ + output_size_)`), so `output_size_`
is a length. `finish` returns from `poll` in the source; here it leaves a result
that is not `running`, and each stage of `poll` that may finish says whether the
poll goes on.
-/
import Firmingo.Channel
import Firmingo.Request
import Firmingo.Replies

set_option autoImplicit false

open Octets

namespace Firmingo

open Protocol

/-- `SessionResult`. -/
inductive SessionResult
  | running
  | closed
  | disconnected
  | timeout
  | protocol_error
  | io_error
  deriving DecidableEq, Repr

/-- `Session`. The pointers to the channel, the memory samples and the upload
service are resolved by `Ctx` and `PollInput`; `has_upload` is whether the last is
set. -/
structure Session where
  identity : Identity
  owner : UInt32
  started_at : UInt32
  progress_at : UInt32
  has_upload : Bool
  frame_at : UInt32 := 0
  closing_at : UInt32 := 0
  decoder : Decoder := {}
  output : List Byte := []
  data_offset : ℕ := 0
  negotiated : Bool := false
  owned : Bool := false
  closing : Bool := false
  data_turn : Bool := false
  upload_released : Bool := false
  result : SessionResult := .running

namespace Session

def handshake_ms : UInt32 := 5000
def frame_ms : UInt32 := 5000
def idle_ms : UInt32 := 30000
def error_flush_ms : UInt32 := 1000
def response_capacity : ℕ := 1024

/-- `sizeof(output_)`. -/
def output_capacity : ℕ := header_size + response_capacity

/-- `sizeof(sketch_console_fields_)`. -/
def fields_capacity : ℕ := 360

/-- `sizeof(body)` of `Session::error`. -/
def error_capacity : ℕ := 128

/-- `hex_id`. -/
def hex_id (s : List Byte) : Bool :=
  s.length = 16 && s.all fun c => (c ≥ 0x30 && c ≤ 0x39) || (c ≥ 0x61 && c ≤ 0x66)

/-- `name`. -/
def name (s : List Byte) : Bool :=
  s.length ≠ 0 && s.length ≤ 32 && s.all fun c =>
    (c ≥ 0x61 && c ≤ 0x7a) || (c ≥ 0x41 && c ≤ 0x5a) || (c ≥ 0x30 && c ≤ 0x39)
      || c = 0x5f || c = 0x2d || c = 0x2e

/-- The upload targets the constructor admits. -/
def target_ok (t : UploadTarget) : Bool :=
  t.id ≠ 0 && t.format.isSome && t.authorization.isSome && name (t.format.getD [])
    && name (t.authorization.getD []) && t.max_size ≠ 0 && t.max_chunk ≠ 0
    && t.max_chunk ≤ max_payload - 8

/-- The identities the constructor admits. -/
def identity_ok (i : Identity) : Bool :=
  hex_id i.device_id && hex_id i.boot_id && name i.board_id && name i.firmware_version

/-- `Session::Session`. -/
def construct (identity : Identity) (owner now : UInt32) (target : Option UploadTarget) : Session :=
  { identity := identity
    owner := owner
    started_at := now
    progress_at := now
    has_upload := target.isSome
    result :=
      if owner = 0 || !identity_ok identity then .io_error
      else if !(target.all target_ok) then .io_error
      else .running }

end Session

/-- A session with the state of what it refers to. -/
structure Ctx (β υ : Type) where
  session : Session
  channel : Channel β
  upload : υ

/-- What one poll sees of its surroundings: the time, the transport's answers and
the memory samples. -/
structure PollInput where
  now : UInt32
  connected : Bool
  write : List Byte → ℕ
  read : ℕ → List Byte
  memory : Option MemorySamples

namespace Ctx

variable {β υ : Type} [StreamBackend β] [UploadService υ]

def limit (c : Ctx β υ) : ℕ := c.session.decoder.limit

/-- Append to the ghost history. -/
def record (c : Ctx β υ) (e : Event) : Ctx β υ := { c with channel := c.channel.record e }

/-- `decoder_.reset()`. -/
def reset_decoder (c : Ctx β υ) : Ctx β υ :=
  { c with session := { c.session with decoder := c.session.decoder.reset } }

/-! ## Ending a session -/

/-- The release half of `Session::close`, which malformed JSON makes too: the channel
if the session owns it, and the upload service if it has not been told yet. -/
def let_go (c : Ctx β υ) : Ctx β υ :=
  let channel :=
    if c.session.owned then c.channel.release c.session.owner else c.channel
  let upload :=
    if c.session.has_upload && !c.session.upload_released then
      UploadService.disconnect c.upload c.session.owner
    else c.upload
  { session := { c.session with upload_released := true, owned := false }
    channel := channel
    upload := upload }

/-- `Session::close`. -/
def close (c : Ctx β υ) : Ctx β υ :=
  let c := c.let_go
  { c with
    session := { c.session with
      decoder := c.session.decoder.reset
      output := []
      data_offset := 0
      result := if c.session.result = .running then .closed else c.session.result } }

/-- `Session::finish`. -/
def finish (c : Ctx β υ) (result : SessionResult) : Ctx β υ :=
  let c := c.close
  { c with session := { c.session with result := result } }

/-! ## Queueing a frame -/

/-- `Session::queue`. -/
def queue (c : Ctx β υ) (type : FrameType) (request : ℕ) (payload : List Byte) : Ctx β υ :=
  if c.session.output ≠ [] || payload.length > c.limit then c.finish .io_error
  else
    match encode Session.output_capacity type request payload with
    | none => c.finish .io_error
    | some bytes =>
      { c with session := { c.session with output := bytes } }.record
        (.queued c.session.owner ⟨type, request, payload⟩ c.limit)

/-- `Session::error`. -/
def error (c : Ctx β υ) (request : ℕ) (code : String) : Ctx β υ :=
  if (error_body code).length ≥ Session.error_capacity then c.finish .io_error
  else c.queue .response request (error_body code)

/-- `Session::success`. -/
def success (c : Ctx β υ) (request : ℕ) : Ctx β υ := c.queue .response request success_body

/-- The end of a formatted reply, in `Session::dispatch` and `upload_response`: it
must fit the buffer, and then the limit. -/
def reply (c : Ctx β υ) (request : ℕ) (body : List Byte) : Ctx β υ :=
  if body.length ≥ Session.response_capacity + 1 then c.finish .io_error
  else if body.length > c.limit then c.error request "response_too_large"
  else c.queue .response request body

/-- `Session::upload_response`. -/
def upload_response (c : Ctx β υ) (request : ℕ) (answer : UploadAnswer) : Ctx β υ :=
  if answer.error ≠ .none then c.error request (upload_error_name answer.error)
  else c.reply request (upload_body answer.status)

/-! ## Dispatch -/

/-- The last line of `Session::dispatch`. -/
def conclude (c : Ctx β υ) : Ctx β υ :=
  { c with session := { c.session with decoder := c.session.decoder.reset, data_turn := true } }

/-- A serial frame: it stays in the decoder, for the stream to consume. -/
def dispatch_serial (c : Ctx β υ) : Ctx β υ :=
  let s := c.session
  if !s.negotiated || !s.owned || s.decoder.size ≤ 4 || word32_be s.decoder.payload ≠ 1 then
    c.finish .protocol_error
  else c

/-- An upload frame. -/
def dispatch_chunk (c : Ctx β υ) : Ctx β υ :=
  let d := c.session.decoder
  let target : UploadTarget := UploadService.target υ
  if c.session.negotiated && c.session.has_upload && d.size > 8 && d.size - 8 ≤ target.max_chunk then
    let (answer, upload) := UploadService.chunk c.upload c.session.owner (word32_be d.payload)
      (word32_be (d.payload.drop 4)) (d.payload.drop 8)
    ({ c with upload := upload }.upload_response d.request answer).reset_decoder
  else
    let error : UploadError :=
      if !c.session.negotiated then .invalid_state
      else if !c.session.has_upload then .unsupported
      else .invalid_argument
    (c.upload_response d.request { error := error }).reset_decoder

/-- Malformed JSON: one error reply, then the session only flushes it. -/
def dispatch_malformed (c : Ctx β υ) (now : UInt32) : Ctx β υ :=
  let c := (c.error c.session.decoder.request "invalid_argument").reset_decoder.let_go
  { c with session := { c.session with closing := true, closing_at := now } }

/-- The service call of an upload method. -/
def call_upload (c : Ctx β υ) (r : UploadRequest) : UploadAnswer × υ :=
  match r.method with
  | .begin => UploadService.begin c.upload c.session.owner r.size r.digest
  | .status => (UploadService.status c.upload r.id, c.upload)
  | .finish => UploadService.finish c.upload c.session.owner r.id
  | .commit => UploadService.commit c.upload c.session.owner r.id
  | .abort => UploadService.abort c.upload c.session.owner r.id

/-- `Session::dispatch_upload`, once the document names one of its methods. -/
def dispatch_upload (c : Ctx β υ) (d : Json.Document) (method : UploadMethod) : Ctx β υ :=
  let id := c.session.decoder.request
  let target : UploadTarget := UploadService.target υ
  match upload_request d method with
  | none => c.error id "invalid_argument"
  | some r =>
    if !c.session.negotiated then c.error id "invalid_state"
    else if !c.session.has_upload then c.error id "unsupported"
    else if r.target ≠ target.id || (r.method = .begin &&
        (r.board ≠ c.session.identity.board_id || some r.format ≠ target.format)) then
      c.error id "wrong_target"
    else if (r.method = .begin || r.method = .commit) && c.channel.owner ≠ 0 then c.error id "busy"
    else
      let (answer, upload) := c.call_upload r
      { c with upload := upload }.upload_response id answer

/-- What `hello` writes for the upload targets. -/
def targets (c : Ctx β υ) : List Byte :=
  if c.session.has_upload then targets_body (UploadService.target υ) else ascii "[]"

/-- The description `hello` formats, once the limit is in force; `none` where a UART
has no configuration. -/
def description (c : Ctx β υ) : Option (List Byte) :=
  let owned : Bool := c.channel.owner ≠ 0
  match StreamBackend.kind c.channel.backend with
  | .uart =>
    (StreamBackend.configuration c.channel.backend).map fun configuration =>
      hello_uart_body c.session.identity c.limit owned configuration c.targets
  | .application => some (hello_application_body c.session.identity c.limit owned c.targets)

/-- The second half of `hello`: the description of a session that has negotiated. -/
def describe (c : Ctx β υ) (id : ℕ) : Ctx β υ :=
  if c.targets.length ≥ Session.fields_capacity then c.finish .io_error
  else
    match c.description with
    | none => c.finish .io_error
    | some body => (c.reply id body).conclude

/-- `hello`. -/
def dispatch_hello (c : Ctx β υ) (r : Request) : Ctx β υ :=
  let id := c.session.decoder.request
  if c.session.negotiated then (c.error id "invalid_state").conclude
  else
    match c.session.decoder.reset.negotiate r.offer with
    | none => c.reset_decoder.finish .io_error
    | some decoder =>
      { c with session := { c.session with decoder := decoder, negotiated := true } }.describe id

/-- What `device.diagnostics` writes for the sketch console, where the limit admits it. -/
def sketch_fields (c : Ctx β υ) : Option BackendDiagnostics → List Byte
  | none => []
  | some b =>
    if b.has_sketch_console && c.limit ≥ Session.response_capacity then sketch_members b else []

/-- `device.diagnostics`. -/
def dispatch_diagnostics (c : Ctx β υ) (memory : Option MemorySamples) : Ctx β υ :=
  let id := c.session.decoder.request
  match memory with
  | none => (c.error id "unsupported").conclude
  | some m =>
    if m.count = 0 then (c.error id "unsupported").conclude
    else
      let (diagnostics, backend) := StreamBackend.diagnostics c.channel.backend
      let c : Ctx β υ := { c with channel := { c.channel with backend := backend } }
      let sketch := c.sketch_fields diagnostics
      if sketch.length ≥ Session.fields_capacity then c.finish .io_error
      else
        (c.reply id (diagnostics_body m c.channel.peak_rx c.channel.peak_tx
          (StreamBackend.kind backend) diagnostics sketch)).conclude

/-- The reply to a failed `Channel::acquire`. -/
def acquire_error : StreamResult → String
  | .busy => "busy"
  | .unsupported => "unsupported"
  | .invalid_argument => "invalid_argument"
  | _ => "io_error"

/-- `serial.open`. -/
def dispatch_open (c : Ctx β υ) (now : UInt32) (r : Request) : Ctx β υ :=
  let id := c.session.decoder.request
  if c.session.owned then (c.error id "invalid_state").conclude
  else if c.session.has_upload && UploadService.blocks_console c.upload then
    (c.error id "busy").conclude
  else if StreamBackend.kind c.channel.backend = .uart && r.config_nonempty && !r.config_complete then
    (c.error id "invalid_argument").conclude
  else
    let (acquired, channel) := c.channel.acquire c.session.owner now
      (if r.config_nonempty then some r.configuration else none)
    let c : Ctx β υ := { c with channel := channel }
    if acquired ≠ .ok then (c.error id (acquire_error acquired)).conclude
    else ({ c with session := { c.session with owned := true } }.success id).conclude

/-- `backend_error`. -/
def backend_error : BackendResult → String
  | .unsupported => "unsupported"
  | .invalid_argument => "invalid_argument"
  | .busy => "busy"
  | .io_error => "io_error"
  | .ok => "io_error"

/-- `serial.configure`, by the owner. -/
def dispatch_configure (c : Ctx β υ) (r : Request) : Ctx β υ :=
  let id := c.session.decoder.request
  let (configured, channel) :=
    if StreamBackend.kind c.channel.backend = .uart && !r.config_complete then
      (BackendResult.invalid_argument, c.channel)
    else c.channel.configure c.session.owner r.configuration
  let c : Ctx β υ := { c with channel := channel }
  if configured ≠ .ok then (c.error id (backend_error configured)).conclude
  else
    match StreamBackend.configuration c.channel.backend with
    | none => c.finish .io_error
    | some configuration => (c.reply id (configure_body configuration)).conclude

/-- `serial.close`, by the owner. -/
def dispatch_close (c : Ctx β υ) : Ctx β υ :=
  let id := c.session.decoder.request
  ({ c with
      channel := c.channel.release c.session.owner
      session := { c.session with owned := false } }.success id).conclude

/-- A request that passed `request`, after hello. -/
def dispatch_command (c : Ctx β υ) (now : UInt32) (memory : Option MemorySamples) (r : Request) :
    Ctx β υ :=
  let id := c.session.decoder.request
  match r.command with
  | .hello => c.dispatch_hello r
  | .device_diagnostics => c.dispatch_diagnostics memory
  | .unknown | .device_reset => (c.error id "unsupported").conclude
  | _ =>
    if r.channel ≠ 1 then (c.error id "wrong_target").conclude
    else if r.command = .serial_open then c.dispatch_open now r
    else if !c.session.owned then (c.error id "invalid_state").conclude
    else if r.command = .serial_close then c.dispatch_close
    else if r.command = .serial_configure then c.dispatch_configure r
    else if r.command = .serial_control then (c.error id "unsupported").conclude
    else
      (c.reply id (status_body c.channel.rx_bytes c.channel.tx_bytes c.channel.pending_rx
        c.channel.pending_tx)).conclude

/-- A request frame. -/
def dispatch_request (c : Ctx β υ) (now : UInt32) (memory : Option MemorySamples) : Ctx β υ :=
  let id := c.session.decoder.request
  match Json.Document.parse c.session.decoder.payload with
  | none => c.dispatch_malformed now
  | some d =>
    match (if c.session.has_upload then upload_method d else none) with
    | some method => (c.dispatch_upload d method).conclude
    | none =>
      match request d with
      | none => (c.error id "invalid_argument").reset_decoder
      | some r =>
        if !c.session.negotiated && r.command ≠ .hello then
          (c.error id "invalid_state").reset_decoder
        else c.dispatch_command now memory r

/-- `Session::dispatch`. -/
def dispatch (c : Ctx β υ) (now : UInt32) (memory : Option MemorySamples) : Ctx β υ :=
  match c.session.decoder.type with
  | .serial => c.dispatch_serial
  | .response | .event => c.finish .protocol_error
  | .upload => c.dispatch_chunk
  | .request => c.dispatch_request now memory

/-! ## The stream's peer -/

/-- `Session::read`: the data of the serial frame in the decoder. -/
def read (c : Ctx β υ) (capacity : ℕ) : List Byte × Ctx β υ :=
  let s := c.session
  if s.decoder.state ≠ .ready || s.decoder.type ≠ .serial then ([], c)
  else
    let count := min capacity (s.decoder.size - 4 - s.data_offset)
    let data := (s.decoder.payload.drop (4 + s.data_offset)).take count
    let session :=
      if s.data_offset + count = s.decoder.size - 4 then
        { s with decoder := s.decoder.reset, data_offset := 0 }
      else { s with data_offset := s.data_offset + count }
    (data, { c with session := session })

/-- `Session::write`: one serial frame, if nothing is being sent. -/
def write (c : Ctx β υ) (data : List Byte) : ℕ × Ctx β υ :=
  if c.session.output ≠ [] then (0, c)
  else
    let count := min data.length Stream.capacity
    let c := if count ≠ 0 then c.queue .serial 0 (bytes32_be 1 ++ data.take count) else c
    (if c.session.result = .running then count else 0, c)

/-- The session as the peer of its stream. -/
def peer : ByteIO (Ctx β υ) where
  connected c := c.session.owned
  read := read
  write := write

/-- The channel as the backend of its stream. -/
def backend : ByteIO (Ctx β υ) where
  connected c := StreamBackend.connected c.channel.backend
  read c capacity :=
    let (bytes, channel) := c.channel.read capacity
    (bytes, { c with channel := channel })
  write c data :=
    let (n, channel) := c.channel.write data
    (n, { c with channel := channel })

/-- The stream of the channel. -/
def stream (c : Ctx β υ) : Stream := c.channel.stream

def set_stream (c : Ctx β υ) (s : Stream) : Ctx β υ :=
  { c with channel := { c.channel with stream := s } }

/-- `Channel::poll`: a failure that cleared the stream ends the tenure. -/
def channel_poll (c : Ctx β υ) (now : UInt32) : StreamResult × Ctx β υ :=
  let owner := c.session.owner
  let (result, c) := Stream.poll stream set_stream owner peer backend now c
  if result ≠ .ok && result ≠ .invalid_owner then
    (result, { c with channel := c.channel.retire owner })
  else (result, c)

/-- `Session::pump`. -/
def pump (c : Ctx β υ) (now : UInt32) : Ctx β υ :=
  let (result, c') := c.channel_poll now
  if result ≠ .ok then c'.finish .io_error
  else if c.channel.rx_bytes ≠ c'.channel.rx_bytes || c.channel.tx_bytes ≠ c'.channel.tx_bytes
      || c.channel.pending_rx ≠ c'.channel.pending_rx || c.channel.pending_tx ≠ c'.channel.pending_tx
      || c.session.output.length ≠ c'.session.output.length then
    { c' with session := { c'.session with progress_at := now } }
  else c'

/-! ## Polling -/

/-- The deadline that has passed, if one has. -/
def expired (c : Ctx β υ) (now : UInt32) : Option SessionResult :=
  let s := c.session
  if s.closing then
    if s.output = [] || now - s.closing_at ≥ Session.error_flush_ms then some .protocol_error
    else none
  else if (!s.negotiated && now - s.started_at ≥ Session.handshake_ms)
      || (s.negotiated && now - s.progress_at ≥ Session.idle_ms)
      || (s.decoder.started && s.decoder.state = .incomplete
          && now - s.frame_at ≥ Session.frame_ms) then
    some .timeout
  else none

/-- The output stage: one write of what is left of the output. -/
def flush (c : Ctx β υ) (input : PollInput) : Ctx β υ :=
  if c.session.output = [] then c
  else
    let count := input.write c.session.output
    if count > c.session.output.length then c.finish .io_error
    else
      { c with
        session := { c.session with
          output := c.session.output.drop count
          progress_at := if count ≠ 0 then input.now else c.session.progress_at } }.record
        (.sent c.session.owner (c.session.output.take count))

/-- The input stage: one read of what the decoder needs. -/
def receive (c : Ctx β υ) (input : PollInput) : Ctx β υ :=
  if c.session.decoder.state ≠ .incomplete then c
  else
    let capacity := min c.session.decoder.needed 256
    let bytes := input.read capacity
    if bytes.length > capacity then c.finish .io_error
    else if bytes = [] then c
    else
      let s := c.session
      let decoder := s.decoder.feed bytes
      let c : Ctx β υ := { c with
        session := { s with
          frame_at := if s.decoder.started then s.frame_at else input.now
          decoder := decoder
          progress_at := input.now } }
      if decoder.state = .ready then c.record (.received s.owner decoder.frame) else c

/-- What a READY frame leads to: whether the stream was pumped ahead of it, and the
state after its dispatch. -/
def handle (c : Ctx β υ) (input : PollInput) : Bool × Ctx β υ :=
  if c.session.decoder.type = .serial then (false, c.dispatch input.now input.memory)
  else
    -- Alternate command replies and backend output under continuous traffic.
    let data_first : Bool := c.session.output = [] && c.session.owned && c.session.data_turn
    let c := if data_first then c.pump input.now else c
    if data_first && c.session.result ≠ .running then (true, c)
    else
      let c : Ctx β υ :=
        if data_first then { c with session := { c.session with data_turn := false } } else c
      (data_first, if c.session.output = [] then c.dispatch input.now input.memory else c)

/-- The frame stage: what the decoder holds, then the stream. -/
def serve (c : Ctx β υ) (input : PollInput) : Ctx β υ :=
  if c.session.decoder.state ≠ .incomplete && c.session.decoder.state ≠ .ready then
    c.finish .protocol_error
  else
    let (pumped, c) := if c.session.decoder.state = .ready then c.handle input else (false, c)
    if c.session.result = .running && c.session.owned && !pumped then c.pump input.now else c

/-- `Session::poll`. -/
def poll (c : Ctx β υ) (input : PollInput) : Ctx β υ :=
  if c.session.result ≠ .running then c
  else if !input.connected then c.finish .disconnected
  else
    match c.expired input.now with
    | some result => c.finish result
    | none =>
      let c := c.flush input
      if c.session.result ≠ .running then c
      else if c.session.closing then
        if c.session.output ≠ [] then c else c.finish .protocol_error
      else
        let c := c.receive input
        if c.session.result ≠ .running then c else c.serve input

end Ctx

end Firmingo
