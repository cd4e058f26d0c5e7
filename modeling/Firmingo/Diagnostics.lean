/-
The diagnostics exchange: what `device.diagnostics` is answered with.

The reply is formatted into a buffer of 1025 bytes, and a text that does not fit it
ends the session. With counters of the declared types that can only happen when the
sketch group and the transport group are both printed; in every other case the
session goes on, and answers the result or says why not.
-/
import Firmingo.Lengths
import Firmingo.Dispatch
import Firmingo.System
import Firmingo.Backends

set_option autoImplicit false

open Octets

namespace Firmingo

open Protocol Machine

/-! ## Counters of their declared types -/

/-- The queue sizes are at most a queue's capacity. -/
structure BackendDiagnostics.Typed (b : BackendDiagnostics) : Prop where
  rx_pending : b.rx_pending ≤ Stream.capacity
  tx_pending : b.tx_pending ≤ Stream.capacity
  rx_peak : b.rx_peak ≤ Stream.capacity
  tx_peak : b.tx_peak ≤ Stream.capacity
  rx_discarded : b.rx_discarded < 2 ^ 64
  tx_discarded : b.tx_discarded < 2 ^ 64
  rx_overrun_events : b.rx_overrun_events < 2 ^ 32
  rx_lost_bytes_minimum : b.rx_lost_bytes_minimum < 2 ^ 64
  tx_throttle_events : b.tx_throttle_events < 2 ^ 32
  sketch_input_discarded : b.sketch_input_discarded < 2 ^ 32
  sketch_output_discarded : b.sketch_output_discarded < 2 ^ 32
  sketch_output_rejected : b.sketch_output_rejected < 2 ^ 32
  sketch_output_peak : b.sketch_output_peak < 2 ^ 32
  sketch_loop_boundaries : b.sketch_loop_boundaries < 2 ^ 32
  sketch_epoch : b.sketch_epoch < 2 ^ 32
  sketch_acknowledged_epoch : b.sketch_acknowledged_epoch < 2 ^ 32

structure TransportDiagnostics.Typed (t : TransportDiagnostics) : Prop where
  ncm_worker_runs : t.ncm_worker_runs < 2 ^ 32
  ncm_rx_frames : t.ncm_rx_frames < 2 ^ 32
  ncm_rx_deferred : t.ncm_rx_deferred < 2 ^ 32
  ncm_rx_batch_peak : t.ncm_rx_batch_peak < 2 ^ 32
  ncm_mutex_contentions : t.ncm_mutex_contentions < 2 ^ 32
  ncm_budget_exhaustions : t.ncm_budget_exhaustions < 2 ^ 32
  ncm_wake_requests : t.ncm_wake_requests < 2 ^ 32
  tcp_accepts : t.tcp_accepts < 2 ^ 32
  tcp_rx_callbacks : t.tcp_rx_callbacks < 2 ^ 32
  tcp_sent_callbacks : t.tcp_sent_callbacks < 2 ^ 32
  tcp_errors : t.tcp_errors < 2 ^ 32
  tcp_rx_bytes : t.tcp_rx_bytes < 2 ^ 64
  tcp_sent_bytes : t.tcp_sent_bytes < 2 ^ 64

structure MemorySamples.Typed (m : MemorySamples) : Prop where
  count : m.count < 2 ^ 32
  heap_free : m.heap_free < 2 ^ 32
  heap_min : m.heap_min < 2 ^ 32
  stack_free : m.stack_free < 2 ^ 32
  stack_min : m.stack_min < 2 ^ 32
  transport : ∀ t, m.transport = some t → t.Typed

/-- The widths the three kinds of counters print to. -/
theorem digits_queue {n : ℕ} (h : n ≤ Stream.capacity) : digits n ≤ 3 :=
  digits_le (by decide) (lt_of_le_of_lt h (by decide))

theorem digits_uint32 {n : ℕ} (h : n < 2 ^ 32) : digits n ≤ 10 :=
  digits_le (by decide) (lt_trans h (by decide))

theorem digits_uint64 {n : ℕ} (h : n < 2 ^ 64) : digits n ≤ 20 :=
  digits_le (by decide) (lt_trans h (by decide))

theorem bool_size_le (b : Bool) : bool_size b ≤ 5 := by
  cases b <;> decide

/-! ### The largest groups -/

variable {m : MemorySamples}

theorem memory_size_le (h : m.Typed) {peak_rx peak_tx : ℕ} (hrx : peak_rx ≤ Stream.capacity)
    (htx : peak_tx ≤ Stream.capacity) : memory_size m peak_rx peak_tx ≤ 191 := by
  have h1 := digits_uint32 h.count
  have h2 := digits_uint32 h.heap_free
  have h3 := digits_uint32 h.heap_min
  have h4 := digits_uint32 h.stack_free
  have h5 := digits_uint32 h.stack_min
  have h6 := digits_queue hrx
  have h7 := digits_queue htx
  unfold memory_size
  omega

theorem uart_size_le {b : BackendDiagnostics} (h : b.Typed) : uart_size b ≤ 180 := by
  have h1 := digits_queue h.rx_pending
  have h2 := digits_uint64 h.rx_discarded
  have h3 := digits_uint32 h.rx_overrun_events
  have h4 := digits_uint64 h.rx_lost_bytes_minimum
  have h5 := digits_uint32 h.tx_throttle_events
  unfold uart_size
  omega

theorem application_size_le {b : BackendDiagnostics} (h : b.Typed) : application_size b ≤ 206 := by
  have h1 := digits_queue h.rx_pending
  have h2 := digits_queue h.tx_pending
  have h3 := digits_queue h.rx_peak
  have h4 := digits_queue h.tx_peak
  have h5 := digits_uint64 h.rx_discarded
  have h6 := digits_uint64 h.tx_discarded
  unfold application_size
  omega

/-- The most that seven counters of 32 bits and two flags print. -/
theorem sketch_size_le {b : BackendDiagnostics} (h : b.Typed) : sketch_size b ≤ 301 := by
  have h1 := digits_uint32 h.sketch_input_discarded
  have h2 := digits_uint32 h.sketch_output_discarded
  have h3 := digits_uint32 h.sketch_output_rejected
  have h4 := digits_uint32 h.sketch_output_peak
  have h5 := digits_uint32 h.sketch_loop_boundaries
  have h6 := digits_uint32 h.sketch_epoch
  have h7 := digits_uint32 h.sketch_acknowledged_epoch
  have h8 := bool_size_le b.sketch_input_enabled
  have h9 := bool_size_le b.sketch_output_enabled
  unfold sketch_size
  omega

/-- The most that the thirteen counters of the transport print. -/
theorem transport_size_le {t : TransportDiagnostics} (h : t.Typed) : transport_size t ≤ 403 := by
  have h1 := digits_uint32 h.ncm_worker_runs
  have h2 := digits_uint32 h.ncm_rx_frames
  have h3 := digits_uint32 h.ncm_rx_deferred
  have h4 := digits_uint32 h.ncm_rx_batch_peak
  have h5 := digits_uint32 h.ncm_mutex_contentions
  have h6 := digits_uint32 h.ncm_budget_exhaustions
  have h7 := digits_uint32 h.ncm_wake_requests
  have h8 := digits_uint32 h.tcp_accepts
  have h9 := digits_uint32 h.tcp_rx_callbacks
  have h10 := digits_uint64 h.tcp_rx_bytes
  have h11 := digits_uint32 h.tcp_sent_callbacks
  have h12 := digits_uint64 h.tcp_sent_bytes
  have h13 := digits_uint32 h.tcp_errors
  unfold transport_size
  omega

namespace Ctx

variable {β υ : Type} [StreamBackend β] [UploadService υ]

/-! ## The reply -/

/-- What the backend reports to this session, and the backend after it was asked. -/
def backend_report (c : Ctx β υ) : Option BackendDiagnostics × β :=
  StreamBackend.diagnostics c.channel.backend

/-- The session after the backend was asked. -/
def reported (c : Ctx β υ) : Ctx β υ :=
  { c with channel := { c.channel with backend := c.backend_report.2 } }

/-- Whether the sketch group is formatted. -/
def has_sketch (c : Ctx β υ) : Bool :=
  c.backend_report.1.any (·.has_sketch_console) && c.limit ≥ Session.response_capacity

/-- The result of the request, and the number of its characters. -/
def diagnostics_text (c : Ctx β υ) (m : MemorySamples) : List Byte :=
  diagnostics_body m c.channel.peak_rx c.channel.peak_tx (StreamBackend.kind c.backend_report.2)
    c.backend_report.1 (c.sketch_fields c.backend_report.1)

def diagnostics_length (c : Ctx β υ) (m : MemorySamples) : ℕ :=
  diagnostics_size m c.channel.peak_rx c.channel.peak_tx (StreamBackend.kind c.backend_report.2)
    c.backend_report.1 c.has_sketch

/-- The sketch group and the transport group are both printed. -/
def Crowded (c : Ctx β υ) (m : MemorySamples) : Prop :=
  StreamBackend.kind c.backend_report.2 = .application ∧ c.has_sketch = true ∧
    m.transport.isSome = true

/-- What the session answers, as long as the text fits the buffer. -/
def diagnostics_answer (c : Ctx β υ) (memory : Option MemorySamples) : List Byte :=
  match memory with
  | none => error_body "unsupported"
  | some m =>
    if m.count = 0 then error_body "unsupported"
    else if (c.diagnostics_text m).length ≤ c.limit then c.diagnostics_text m
    else error_body "response_too_large"

/-- Everything the reply prints has its declared type. -/
structure Measured (c : Ctx β υ) (memory : Option MemorySamples) : Prop where
  memory : ∀ m, memory = some m → m.Typed
  backend : ∀ b, c.backend_report.1 = some b → b.Typed
  peak_rx : c.channel.peak_rx ≤ Stream.capacity
  peak_tx : c.channel.peak_tx ≤ Stream.capacity

omit [UploadService υ] in
theorem sketch_fields_eq (c : Ctx β υ) :
    c.sketch_fields c.backend_report.1 = match c.backend_report.1 with
      | none => []
      | some b => if c.has_sketch then sketch_members b else [] := by
  unfold has_sketch
  cases c.backend_report.1 with
  | none => rfl
  | some b => rfl

omit [UploadService υ] in
theorem diagnostics_text_length (c : Ctx β υ) (m : MemorySamples) :
    (c.diagnostics_text m).length = c.diagnostics_length m := by
  unfold diagnostics_text
  rw [sketch_fields_eq]
  exact diagnostics_body_length _ _ _ _ _ _

variable {c : Ctx β υ}

omit [UploadService υ] in
theorem Measured.sketch_fields_length {memory : Option MemorySamples}
    (h : Measured c memory) : (c.sketch_fields c.backend_report.1).length ≤ 301 := by
  rw [sketch_fields_eq]
  cases hb : c.backend_report.1 with
  | none => exact Nat.zero_le _
  | some b =>
    simp only
    split
    · rw [sketch_members_length]
      exact sketch_size_le (h.backend b hb)
    · exact Nat.zero_le _

omit [UploadService υ] in
/-- Without both of the two large groups, the text fits the buffer. -/
theorem Measured.length_le (h : Measured c (some m))
    (hcrowd : ¬ c.Crowded m) : c.diagnostics_length m ≤ Session.response_capacity := by
  have hmemory := memory_size_le (h.memory m rfl) h.peak_rx h.peak_tx
  have htransport : m.transport.elim 0 transport_size ≤ 403 := by
    cases hm : m.transport with
    | none => exact Nat.zero_le _
    | some t => exact transport_size_le ((h.memory m rfl).transport t hm)
  unfold diagnostics_length diagnostics_size
  simp only [Session.response_capacity]
  cases hb : c.backend_report.1 with
  | none =>
    simp only
    omega
  | some b =>
    have huart := uart_size_le (h.backend b hb)
    have happlication := application_size_le (h.backend b hb)
    have hsketch := sketch_size_le (h.backend b hb)
    cases hkind : StreamBackend.kind c.backend_report.2 with
    | uart =>
      simp only
      omega
    | application =>
      cases hs : c.has_sketch with
      | false =>
        simp only [Bool.false_eq_true, if_false]
        omega
      | true =>
        -- the sketch group is printed, so the transport group is not
        have hnone : m.transport = none :=
          Option.not_isSome_iff_eq_none.mp fun ht => hcrowd ⟨hkind, hs, ht⟩
        simp only [hnone, if_true, Option.elim_none]
        omega

/-! ## What is answered -/

/-- The dispatch of the request, when there are samples. -/
theorem Asked.dispatch_sampled {r : Request} (h : Asked c r) (hr : r.command = .device_diagnostics)
    (hcount : m.count ≠ 0) (hm : Measured c (some m)) (now : UInt32) :
    c.dispatch now (some m)
      = (c.reported.reply c.session.decoder.request (c.diagnostics_text m)).conclude := by
  have hfields : ¬ (c.sketch_fields c.backend_report.1).length ≥ Session.fields_capacity := by
    have := hm.sketch_fields_length
    simp only [Session.fields_capacity]
    omega
  rw [h.dispatch_eq, dispatch_command, hr]
  unfold dispatch_diagnostics
  simp only
  rw [if_neg hcount]
  exact if_neg hfields

/-- **The diagnostics result.** A valid request leaves the session running: it is
answered `unsupported` as long as there are no samples, and otherwise with the result
or, when that is longer than the limit, with `response_too_large`. The two large
groups together are only covered where they fit the buffer. -/
theorem diagnostics_answered {c : Ctx β υ} {r : Request} (h : Asked c r)
    (hr : r.command = .device_diagnostics) {memory : Option MemorySamples}
    (hm : Measured c memory)
    (hfit : ∀ m, memory = some m → c.Crowded m →
      c.diagnostics_length m ≤ Session.response_capacity)
    (now : UInt32) :
    (c.dispatch now memory).session.result = .running ∧
      (c.dispatch now memory).session.output
        = wire ⟨.response, c.session.decoder.request, c.diagnostics_answer memory⟩ := by
  have hid := h.request_ne_zero
  have hmin : min_offer ≤ c.limit := h.wf.limit_ge
  have hunsupported : c.error c.session.decoder.request "unsupported"
      = c.holding ⟨.response, c.session.decoder.request, error_body "unsupported"⟩ :=
    error_fits h.idle hid hmin (by decide +kernel)
  cases memory with
  | none =>
    rw [h.dispatch_eq, dispatch_command, hr, dispatch_diagnostics, hunsupported]
    exact ⟨h.running, rfl⟩
  | some m =>
    by_cases hcount : m.count = 0
    · rw [h.dispatch_eq, dispatch_command, hr, dispatch_diagnostics, if_pos hcount, hunsupported]
      rw [diagnostics_answer, if_pos hcount]
      exact ⟨h.running, rfl⟩
    have hbuffer : (c.diagnostics_text m).length ≤ Session.response_capacity := by
      rw [diagnostics_text_length]
      by_cases hcrowd : c.Crowded m
      · exact hfit m rfl hcrowd
      · exact hm.length_le hcrowd
    rw [h.dispatch_sampled hr hcount hm, diagnostics_answer, if_neg hcount]
    by_cases hlimit : (c.diagnostics_text m).length ≤ c.limit
    · rw [if_pos hlimit, reply_fits (c := c.reported) h.idle hid hlimit hbuffer]
      exact ⟨h.running, rfl⟩
    · rw [if_neg hlimit,
        reply_too_large (c := c.reported) h.idle hid hmin (not_le.mp hlimit) hbuffer]
      exact ⟨h.running, rfl⟩

/-- A console that reports what it is told to report. -/
structure SketchConsole where
  report : BackendDiagnostics

instance : StreamBackend SketchConsole where
  connected _ := true
  read s _ := ([], s)
  write s _ := (0, s)
  discard s := s
  diagnostics s := (some s.report, s)

/-- The largest value of a 32-bit counter, in ten digits. -/
def full : ℕ := 2 ^ 32 - 1

/-- A report with the sketch group, with all its counters but one full. -/
def full_report : BackendDiagnostics where
  has_sketch_console := true
  sketch_input_discarded := full
  sketch_output_discarded := full
  sketch_output_rejected := full
  sketch_output_peak := 8
  sketch_loop_boundaries := full
  sketch_epoch := full
  sketch_acknowledged_epoch := full

/-- Samples with the transport group, with all counters full. -/
def full_samples : MemorySamples where
  count := full
  heap_free := full
  heap_min := full
  stack_free := full
  stack_min := full
  transport := some ⟨full, full, full, full, full, full, full, full, full, full, full, full, full⟩

/-- A negotiated session on that console, asked for its diagnostics. -/
def asked : Ctx SketchConsole NoUpload where
  session := { Session.construct System.sample_identity 1 0 none with
    negotiated := true
    decoder := (({} : Decoder).feed (header .request 2 27)).feed
      (ascii "\x7b\"op\":\"device.diagnostics\"\x7d") }
  channel := { backend := ⟨full_report⟩ }
  upload := {}

theorem asked_asked : Asked asked { command := .device_diagnostics } where
  running := by decide +kernel
  idle := rfl
  wf := (Decoder.wf_initial.feed _).feed _
  ready := by decide +kernel
  type := by decide +kernel
  valid := by decide +kernel
  known := by decide
  admitted := .inl rfl

theorem asked_measured : Measured asked (some full_samples) where
  memory m h := by
    cases h
    refine ⟨by decide, by decide, by decide, by decide, by decide, ?_⟩
    intro t ht
    cases ht
    constructor <;> decide
  backend b h := by
    cases h
    constructor <;> decide
  peak_rx := by decide
  peak_tx := by decide

/-- The two large groups together, in a text that fills the buffer to its last byte. -/
theorem diagnostics_answered_asked :
    asked.Crowded full_samples ∧ asked.diagnostics_length full_samples = Session.response_capacity ∧
      (asked.dispatch 0 (some full_samples)).session.result = .running := by
  have hlength : asked.diagnostics_length full_samples = Session.response_capacity := by
    decide +kernel
  refine ⟨⟨rfl, by decide +kernel, rfl⟩, hlength, ?_⟩
  refine (diagnostics_answered asked_asked rfl asked_measured ?_ 0).1
  rintro m ⟨⟩ -
  exact hlength.le

/-- The remaining case: a text longer than the buffer ends the session. -/
theorem diagnostics_overflow {r : Request} (h : Asked c r)
    (hr : r.command = .device_diagnostics) (hcount : m.count ≠ 0)
    (hm : Measured c (some m)) (hlarge : Session.response_capacity < c.diagnostics_length m)
    (now : UInt32) : (c.dispatch now (some m)).session.result = .io_error := by
  rw [h.dispatch_sampled hr hcount hm]
  unfold reply
  rw [if_pos (by rw [diagnostics_text_length]; omega)]
  rfl

end Ctx

/-! ## Runs -/

/-- Two polls that deliver a frame to a session that sees the given samples. -/
def sampled {β υ : Type} (t : UInt32) (m : MemorySamples) (f : Frame) : List (Op β υ) :=
  [.poll t { System.offering ((wire f).take header_size) with memory := some m },
    .poll t { System.offering f.payload with memory := some m }]

/-- A hello, and a request for diagnostics. -/
def diagnostics_run {β υ : Type} (m : MemorySamples) : List (Op β υ) :=
  .construct 1 0 System.sample_identity false ::
    System.deliver 1 ⟨.request, 1, ascii "\x7b\"op\":\"hello\"\x7d"⟩ ++
    sampled 1 m ⟨.request, 2, ascii "\x7b\"op\":\"device.diagnostics\"\x7d"⟩

/-- Before the first sample the answer is neither the result nor `response_too_large`. -/
theorem diagnostics_unsampled :
    ((System.after ({} : ApplicationEndpoint) NoUpload.mk (diagnostics_run {})).sessions 1).map
        (fun s => (s.result, s.output))
      = some (.running, wire ⟨.response, 2, error_body "unsupported"⟩) := by
  decide +kernel

end Firmingo
