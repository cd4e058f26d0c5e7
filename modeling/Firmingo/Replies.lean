/-
Reply texts: the `snprintf` formats of `src/core/session.cpp` and
`src/core/session_upload.cpp`, and the diagnostic records of
`src/core/diagnostics.h` they print.

A format is the bytes it would print into an unbounded buffer; `snprintf` returns
their number, and its callers compare that number with the buffer before they use
the text. The six diagnostics formats of the source are built from the same
groups of members, each printed with its leading comma, so they are written here
as those groups.
-/
import Firmingo.Stream
import Firmingo.Upload

set_option autoImplicit false

open Octets

namespace Firmingo

/-- `Identity`: the characters before the terminator of each array. -/
structure Identity where
  device_id : List Byte
  boot_id : List Byte
  board_id : List Byte
  firmware_version : List Byte
  deriving DecidableEq, Repr

/-- `TransportDiagnostics`. -/
structure TransportDiagnostics where
  ncm_worker_runs : ℕ := 0
  ncm_rx_frames : ℕ := 0
  ncm_rx_deferred : ℕ := 0
  ncm_rx_batch_peak : ℕ := 0
  ncm_mutex_contentions : ℕ := 0
  ncm_budget_exhaustions : ℕ := 0
  ncm_wake_requests : ℕ := 0
  tcp_accepts : ℕ := 0
  tcp_rx_callbacks : ℕ := 0
  tcp_sent_callbacks : ℕ := 0
  tcp_errors : ℕ := 0
  tcp_rx_bytes : ℕ := 0
  tcp_sent_bytes : ℕ := 0
  deriving DecidableEq, Repr

/-- `MemorySamples`, as its accessors show it. -/
structure MemorySamples where
  count : ℕ := 0
  heap_free : ℕ := 0
  heap_min : ℕ := 0
  stack_free : ℕ := 0
  stack_min : ℕ := 0
  transport : Option TransportDiagnostics := none
  deriving DecidableEq, Repr

/-! ## Building blocks -/

def bool_name (b : Bool) : List Byte := if b then ascii "true" else ascii "false"

/-- `parity_name`. -/
def parity_name : SerialParity → List Byte
  | .none => ascii "none"
  | .even => ascii "even"
  | .odd => ascii "odd"

/-- One numeric member, with its leading comma. -/
def number_member (name : String) (value : ℕ) : List Byte :=
  ascii ",\"" ++ ascii name ++ ascii "\":" ++ decimal value

/-- A group of numeric members. -/
def number_members (members : List (String × ℕ)) : List Byte :=
  members.flatMap fun m => number_member m.1 m.2

/-! ## Short replies -/

/-- The text of `Session::error`. -/
def error_body (code : String) : List Byte :=
  ascii "\x7b\"ok\":false,\"error\":\x7b\"code\":\"" ++ ascii code ++ ascii "\",\"message\":\""
    ++ ascii code ++ ascii "\"\x7d\x7d"

/-- The text of `Session::success`. -/
def success_body : List Byte := ascii "\x7b\"ok\":true,\"result\":\x7b\x7d\x7d"

/-- The reply to `serial.configure`. -/
def configure_body (c : SerialConfiguration) : List Byte :=
  ascii "\x7b\"ok\":true,\"result\":\x7b\"baud\":" ++ decimal c.baud
    ++ ascii ",\"actual_baud\":" ++ decimal c.actual_baud
    ++ ascii ",\"data_bits\":" ++ decimal c.data_bits
    ++ ascii ",\"parity\":\"" ++ parity_name c.parity
    ++ ascii "\",\"stop_bits\":" ++ decimal c.stop_bits
    ++ ascii ",\"flow_control\":\"none\"\x7d\x7d"

/-- The reply to `serial.status`. -/
def status_body (rx_bytes tx_bytes pending_rx pending_tx : ℕ) : List Byte :=
  ascii "\x7b\"ok\":true,\"result\":\x7b\"channel_id\":1,\"backend_rx_bytes\":" ++ decimal rx_bytes
    ++ ascii ",\"backend_tx_bytes\":" ++ decimal tx_bytes
    ++ ascii ",\"pending_to_backend\":" ++ decimal pending_rx
    ++ ascii ",\"pending_to_peer\":" ++ decimal pending_tx ++ ascii "\x7d\x7d"

/-! ## Hello -/

/-- The `targets` member of an advertised upload target. -/
def targets_body (t : UploadTarget) : List Byte :=
  ascii "[\x7b\"id\":" ++ decimal t.id ++ ascii ",\"format\":\"" ++ t.format.getD []
    ++ ascii "\",\"max_size\":" ++ decimal t.max_size
    ++ ascii ",\"max_chunk\":" ++ decimal t.max_chunk
    ++ ascii ",\"authorization\":\"" ++ t.authorization.getD [] ++ ascii "\"\x7d]"

/-- The members both hello formats start with. -/
def hello_head (i : Identity) (limit : ℕ) : List Byte :=
  ascii "\x7b\"ok\":true,\"result\":\x7b\"protocol_major\":1,\"firmware_version\":\""
    ++ i.firmware_version ++ ascii "\",\"device_id\":\"" ++ i.device_id
    ++ ascii "\",\"boot_id\":\"" ++ i.boot_id ++ ascii "\",\"board_id\":\"" ++ i.board_id
    ++ ascii "\",\"max_payload\":" ++ decimal limit
    ++ ascii ",\"auth_mode\":\"open-development\",\"channels\":[\x7b\"id\":1,\"backend\":\""

/-- The hello description over a UART backend. -/
def hello_uart_body (i : Identity) (limit : ℕ) (owned : Bool) (c : SerialConfiguration)
    (targets : List Byte) : List Byte :=
  hello_head i limit
    ++ ascii "uart\",\"controls\":[],\"rx_queue\":256,\"tx_queue\":256,\"owned\":" ++ bool_name owned
    ++ ascii ",\"config\":\x7b\"baud\":" ++ decimal c.baud
    ++ ascii ",\"actual_baud\":" ++ decimal c.actual_baud
    ++ ascii ",\"data_bits\":" ++ decimal c.data_bits
    ++ ascii ",\"parity\":\"" ++ parity_name c.parity
    ++ ascii "\",\"stop_bits\":" ++ decimal c.stop_bits
    ++ ascii (",\"flow_control\":\"none\"\x7d,\"configurable\":[\"baud\",\"data_bits\",\"parity\","
        ++ "\"stop_bits\"],\"baud_min\":300,\"baud_max\":2000000\x7d],\"targets\":")
    ++ targets ++ ascii "\x7d\x7d"

/-- The hello description over an application backend. -/
def hello_application_body (i : Identity) (limit : ℕ) (owned : Bool) (targets : List Byte) :
    List Byte :=
  hello_head i limit
    ++ ascii "application\",\"controls\":[],\"rx_queue\":256,\"tx_queue\":256,\"owned\":"
    ++ bool_name owned ++ ascii "\x7d],\"targets\":" ++ targets ++ ascii "\x7d\x7d"

/-! ## Diagnostics -/

/-- The members every diagnostics reply starts with. -/
def memory_members (m : MemorySamples) (peak_rx peak_tx : ℕ) : List Byte :=
  ascii "\x7b\"ok\":true,\"result\":\x7b\"samples\":" ++ decimal m.count
    ++ number_members [("heap_free", m.heap_free), ("heap_min", m.heap_min),
        ("stack_free", m.stack_free), ("stack_min", m.stack_min)]
    ++ ascii ",\"lwip_free\":null"
    ++ number_members [("peak_to_backend", peak_rx), ("peak_to_peer", peak_tx)]

/-- The UART group. -/
def uart_members (b : BackendDiagnostics) : List Byte :=
  number_members [("uart_rx_pending", b.rx_pending), ("uart_rx_discarded", b.rx_discarded),
    ("uart_rx_overrun_events", b.rx_overrun_events),
    ("uart_rx_lost_bytes_minimum", b.rx_lost_bytes_minimum),
    ("uart_tx_throttles", b.tx_throttle_events)]

/-- The application group. -/
def application_members (b : BackendDiagnostics) : List Byte :=
  number_members [("application_rx_pending", b.rx_pending),
    ("application_tx_pending", b.tx_pending), ("application_rx_peak", b.rx_peak),
    ("application_tx_peak", b.tx_peak), ("application_rx_discarded", b.rx_discarded),
    ("application_tx_discarded", b.tx_discarded)]

/-- The optional sketch-console group. -/
def sketch_members (b : BackendDiagnostics) : List Byte :=
  number_members [("sketch_input_discarded", b.sketch_input_discarded),
      ("sketch_output_discarded", b.sketch_output_discarded),
      ("sketch_output_rejected", b.sketch_output_rejected),
      ("sketch_output_peak", b.sketch_output_peak),
      ("sketch_loop_boundaries", b.sketch_loop_boundaries),
      ("sketch_epoch", b.sketch_epoch),
      ("sketch_acknowledged_epoch", b.sketch_acknowledged_epoch)]
    ++ ascii ",\"sketch_input_enabled\":" ++ bool_name b.sketch_input_enabled
    ++ ascii ",\"sketch_output_enabled\":" ++ bool_name b.sketch_output_enabled

/-- The transport group. -/
def transport_members (t : TransportDiagnostics) : List Byte :=
  number_members [("ncm_worker_runs", t.ncm_worker_runs), ("ncm_rx_frames", t.ncm_rx_frames),
    ("ncm_rx_deferred", t.ncm_rx_deferred), ("ncm_rx_batch_peak", t.ncm_rx_batch_peak),
    ("ncm_mutex_contentions", t.ncm_mutex_contentions),
    ("ncm_budget_exhaustions", t.ncm_budget_exhaustions),
    ("ncm_wake_requests", t.ncm_wake_requests), ("tcp_accepts", t.tcp_accepts),
    ("tcp_rx_callbacks", t.tcp_rx_callbacks), ("tcp_rx_bytes", t.tcp_rx_bytes),
    ("tcp_sent_callbacks", t.tcp_sent_callbacks), ("tcp_sent_bytes", t.tcp_sent_bytes),
    ("tcp_errors", t.tcp_errors)]

/-- The diagnostics reply: the backend group of the backend's kind and the transport
group, each present or not. -/
def diagnostics_body (m : MemorySamples) (peak_rx peak_tx : ℕ) (kind : BackendKind)
    (backend : Option BackendDiagnostics) (sketch : List Byte) : List Byte :=
  memory_members m peak_rx peak_tx
    ++ (match backend, kind with
        | none, _ => []
        | some b, .uart => uart_members b
        | some b, .application => application_members b ++ sketch)
    ++ (match m.transport with
        | none => []
        | some t => transport_members t)
    ++ ascii "\x7d\x7d"

/-! ## Upload status -/

def hex_digit (n : ℕ) : Byte := (ascii "0123456789abcdef").getD n 0

/-- A digest in lowercase hexadecimal. -/
def hex_text (digest : List Byte) : List Byte :=
  digest.flatMap fun b => [hex_digit (b.toNat / 16), hex_digit (b.toNat % 16)]

/-- The reply of `Session::upload_response`. -/
def upload_body (s : UploadStatus) : List Byte :=
  ascii "\x7b\"ok\":true,\"result\":\x7b\"upload_id\":" ++ decimal s.id
    ++ ascii ",\"state\":\"" ++ ascii (upload_state_name s.state)
    ++ ascii "\",\"size\":" ++ decimal s.size ++ ascii ",\"received\":" ++ decimal s.received
    ++ ascii ",\"sha256\":\"" ++ hex_text s.digest
    ++ ascii "\",\"slot_touched\":" ++ bool_name s.slot_touched
    ++ ascii ",\"error\":\"" ++ ascii (upload_error_name s.error) ++ ascii "\"\x7d\x7d"

end Firmingo
