/-
The lengths of the reply texts.

`snprintf` returns how much it would print, and the session compares that with its
buffer and with the negotiated limit. This file computes the length of each text
from what goes into it: a constant for the fixed characters and the digits or
characters of each argument.
-/
import Firmingo.Replies

set_option autoImplicit false

open Octets

namespace Firmingo

/-! ## Lengths of the formats

Each format is compared with itself on empty texts and zeros, where its length is a
number; the fixed texts cancel. -/

/-- The number of decimal digits of `n`. -/
def digits (n : ℕ) : ℕ := (Nat.toDigits 10 n).length

theorem decimal_digits (n : ℕ) : (decimal n).length = digits n := decimal_length n

theorem digits_le {n k : ℕ} (hk : 0 < k) (hn : n < 10 ^ k) : digits n ≤ k := by
  rw [← decimal_digits]
  exact decimal_length_le hk hn

theorem text_length (l : List Char) : (ascii (String.ofList l)).length = l.length := by
  rw [ascii_ofList, List.length_map]

theorem ascii_append_length (s t : String) :
    (ascii (s ++ t)).length = (ascii s).length + (ascii t).length := by
  simp only [ascii, String.toList_append, List.map_append, List.length_append]

/-- The lengths of `true` and `false`, and of the parity names. -/
def bool_size (b : Bool) : ℕ := if b then 4 else 5

def parity_size : SerialParity → ℕ
  | .none | .even => 4
  | .odd => 3

theorem bool_name_length (b : Bool) : (bool_name b).length = bool_size b := by
  cases b <;> exact text_length _

theorem parity_name_length (p : SerialParity) : (parity_name p).length = parity_size p := by
  cases p <;> exact text_length _

/-- The characters of an identity. -/
def identity_size (i : Identity) : ℕ :=
  i.firmware_version.length + i.device_id.length + i.boot_id.length + i.board_id.length

/-- The characters of an advertised target. -/
def target_size (t : UploadTarget) : ℕ :=
  65 + digits t.id + (t.format.getD []).length + digits t.max_size + digits t.max_chunk
    + (t.authorization.getD []).length

theorem targets_body_length (t : UploadTarget) : (targets_body t).length = target_size t := by
  simp only [targets_body, List.length_append, decimal_digits]
  repeat rw [text_length]
  simp only [List.length_cons, List.length_nil, target_size]
  omega

/-- The characters of a hello description over a UART, and over an application. -/
def hello_uart_size (i : Identity) (limit : ℕ) (owned : Bool) (c : SerialConfiguration)
    (targets : ℕ) : ℕ :=
  439 + identity_size i + digits limit + bool_size owned + digits c.baud + digits c.actual_baud
    + digits c.data_bits + parity_size c.parity + digits c.stop_bits + targets

def hello_application_size (i : Identity) (limit : ℕ) (owned : Bool) (targets : ℕ) : ℕ :=
  261 + identity_size i + digits limit + bool_size owned + targets

theorem hello_uart_body_length (i : Identity) (limit : ℕ) (owned : Bool) (c : SerialConfiguration)
    (targets : List Byte) :
    (hello_uart_body i limit owned c targets).length
      = hello_uart_size i limit owned c targets.length := by
  simp only [hello_uart_body, hello_head, List.length_append, decimal_digits, bool_name_length,
    parity_name_length, ascii_append_length]
  repeat rw [text_length]
  simp only [List.length_cons, List.length_nil, hello_uart_size, identity_size]
  omega

theorem hello_application_body_length (i : Identity) (limit : ℕ) (owned : Bool)
    (targets : List Byte) :
    (hello_application_body i limit owned targets).length
      = hello_application_size i limit owned targets.length := by
  simp only [hello_application_body, hello_head, List.length_append, decimal_digits,
    bool_name_length]
  repeat rw [text_length]
  simp only [List.length_cons, List.length_nil, hello_application_size, identity_size]
  omega

/-! ## Diagnostics -/

theorem number_member_length (name : String) (value : ℕ) :
    (number_member name value).length = (ascii name).length + digits value + 4 := by
  simp only [number_member, List.length_append, decimal_digits]
  rw [text_length, text_length]
  simp only [List.length_cons, List.length_nil]
  omega

theorem number_members_cons_length (m : String × ℕ) (rest : List (String × ℕ)) :
    (number_members (m :: rest)).length
      = (ascii m.1).length + digits m.2 + 4 + (number_members rest).length := by
  simp only [number_members, List.flatMap_cons, List.length_append, number_member_length]

theorem number_members_nil_length : (number_members []).length = 0 := rfl

/-- The characters of each group, in the order the values are printed. -/
def memory_size (m : MemorySamples) (peak_rx peak_tx : ℕ) : ℕ :=
  135 + digits m.count + digits m.heap_free + digits m.heap_min + digits m.stack_free
    + digits m.stack_min + digits peak_rx + digits peak_tx

def uart_size (b : BackendDiagnostics) : ℕ :=
  117 + digits b.rx_pending + digits b.rx_discarded + digits b.rx_overrun_events
    + digits b.rx_lost_bytes_minimum + digits b.tx_throttle_events

def application_size (b : BackendDiagnostics) : ℕ :=
  154 + digits b.rx_pending + digits b.tx_pending + digits b.rx_peak + digits b.tx_peak
    + digits b.rx_discarded + digits b.tx_discarded

def sketch_size (b : BackendDiagnostics) : ℕ :=
  221 + digits b.sketch_input_discarded + digits b.sketch_output_discarded
    + digits b.sketch_output_rejected + digits b.sketch_output_peak
    + digits b.sketch_loop_boundaries + digits b.sketch_epoch + digits b.sketch_acknowledged_epoch
    + bool_size b.sketch_input_enabled + bool_size b.sketch_output_enabled

def transport_size (t : TransportDiagnostics) : ℕ :=
  253 + digits t.ncm_worker_runs + digits t.ncm_rx_frames + digits t.ncm_rx_deferred
    + digits t.ncm_rx_batch_peak + digits t.ncm_mutex_contentions + digits t.ncm_budget_exhaustions
    + digits t.ncm_wake_requests + digits t.tcp_accepts + digits t.tcp_rx_callbacks
    + digits t.tcp_rx_bytes + digits t.tcp_sent_callbacks + digits t.tcp_sent_bytes
    + digits t.tcp_errors

/-- The characters of a diagnostics reply, with or without the sketch group. -/
def diagnostics_size (m : MemorySamples) (peak_rx peak_tx : ℕ) (kind : BackendKind)
    (backend : Option BackendDiagnostics) (sketch : Bool) : ℕ :=
  memory_size m peak_rx peak_tx
    + (match backend, kind with
        | none, _ => 0
        | some b, .uart => uart_size b
        | some b, .application => application_size b + if sketch then sketch_size b else 0)
    + m.transport.elim 0 transport_size + 2

theorem memory_members_length (m : MemorySamples) (peak_rx peak_tx : ℕ) :
    (memory_members m peak_rx peak_tx).length = memory_size m peak_rx peak_tx := by
  simp only [memory_members, List.length_append, decimal_digits, number_members_cons_length,
    number_members_nil_length]
  repeat rw [text_length]
  simp only [List.length_cons, List.length_nil, memory_size]
  omega

theorem uart_members_length (b : BackendDiagnostics) :
    (uart_members b).length = uart_size b := by
  simp only [uart_members, number_members_cons_length, number_members_nil_length]
  repeat rw [text_length]
  simp only [List.length_cons, List.length_nil, uart_size]
  omega

theorem application_members_length (b : BackendDiagnostics) :
    (application_members b).length = application_size b := by
  simp only [application_members, number_members_cons_length, number_members_nil_length]
  repeat rw [text_length]
  simp only [List.length_cons, List.length_nil, application_size]
  omega

theorem sketch_members_length (b : BackendDiagnostics) :
    (sketch_members b).length = sketch_size b := by
  simp only [sketch_members, List.length_append, bool_name_length,
    number_members_cons_length, number_members_nil_length]
  repeat rw [text_length]
  simp only [List.length_cons, List.length_nil, sketch_size]
  omega

theorem transport_members_length (t : TransportDiagnostics) :
    (transport_members t).length = transport_size t := by
  simp only [transport_members, number_members_cons_length, number_members_nil_length]
  repeat rw [text_length]
  simp only [List.length_cons, List.length_nil, transport_size]
  omega

/-- The length of a diagnostics reply, from its values alone. -/
theorem diagnostics_body_length (m : MemorySamples) (peak_rx peak_tx : ℕ) (kind : BackendKind)
    (backend : Option BackendDiagnostics) (sketch : Bool) :
    (diagnostics_body m peak_rx peak_tx kind backend
        (match backend with
          | none => []
          | some b => if sketch then sketch_members b else [])).length
      = diagnostics_size m peak_rx peak_tx kind backend sketch := by
  have hclose : (ascii "\x7d\x7d").length = 2 := text_length _
  have hsketch : ∀ b, (if sketch then sketch_members b else []).length
      = if sketch then sketch_size b else 0 := by
    intro b
    cases sketch
    · rfl
    · exact sketch_members_length b
  unfold diagnostics_body diagnostics_size
  rw [List.length_append, List.length_append, List.length_append, memory_members_length, hclose]
  congr 2
  · congr 1
    cases backend with
    | none => rfl
    | some b =>
      cases kind with
      | uart => exact uart_members_length b
      | application => rw [List.length_append, application_members_length, hsketch]
  · cases m.transport with
    | none => rfl
    | some t => exact transport_members_length t

end Firmingo
