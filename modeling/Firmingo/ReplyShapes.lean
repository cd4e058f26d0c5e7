/-
Every reply text is a document that says what it is.

Each format of `src/core/session.cpp` and `src/core/session_upload.cpp` is compared with a
shape: the text of the shape, holes included, is the format. What the validator asks of a
document is then a fact about the shape and the words that are filled in, and what a reader
of the reply finds in it is read off its tree.
-/
import Firmingo.JsonShape
import Firmingo.JsonIndex
import Firmingo.Replies
import Firmingo.Session

set_option autoImplicit false

open Octets JsonGrammar JsonShape

namespace Firmingo

open Json

/-! ## What a reply is -/

/-- The document is an answer: its root is an object with a boolean `ok`, and with an object
`result` and no `error` where that is true, and otherwise with no `result` and an object
`error` that has two strings, `code` and `message`. -/
def Answered (d : Document) : Prop :=
  (d.token 0).kind = .object ∧ ∃ ok i, d.find "ok" = some i ∧ d.boolean i = some ok ∧
    if ok then
      d.find "error" = none ∧ ∃ j, d.find "result" = some j ∧ (d.token j).kind = .object
    else
      d.find "result" = none ∧ ∃ j, d.find "error" = some j ∧ (d.token j).kind = .object ∧
        ∀ name ∈ ["code", "message"], ∃ k, child d j name = some k ∧ (d.token k).kind = .string

/-- The validator accepts the payload, and it is an answer. -/
def Describes (payload : List Byte) : Prop := ∃ d, Document.parse payload = some d ∧ Answered d

/-! ## Shapes of objects -/

def elements : List Shape → Elements
  | [] => .nil
  | v :: rest => .cons v (elements rest)

def fields : List (String × Shape) → Members
  | [] => .nil
  | m :: rest => .cons (ascii m.1) m.2 (fields rest)

def record (l : List (String × Shape)) : Shape := .object (fields l)

/-- A reply that grants what was asked. -/
def granted (l : List (String × Shape)) : Shape := record [("ok", .boolean true), ("result", record l)]

/-- A reply that refuses it. -/
def refused : Shape :=
  record [("ok", .boolean false), ("error", record [("code", .word 0), ("message", .word 0)])]

/-! ## The shapes of the replies -/

def configure_shape : List (String × Shape) :=
  [("baud", .number 0), ("actual_baud", .number 1), ("data_bits", .number 2), ("parity", .word 0),
    ("stop_bits", .number 3), ("flow_control", .text (ascii "none"))]

def status_shape : List (String × Shape) :=
  [("channel_id", .constant 1), ("backend_rx_bytes", .number 0), ("backend_tx_bytes", .number 1),
    ("pending_to_backend", .number 2), ("pending_to_peer", .number 3)]

/-- The `targets` of a device without an upload service, and with one. -/
def targets_shape (has_upload : Bool) : List Shape :=
  if has_upload then
    [record [("id", .number 1), ("format", .word 4), ("max_size", .number 2), ("max_chunk", .number 3),
      ("authorization", .word 5)]]
  else []

def hello_shape (channel : List (String × Shape)) (has_upload : Bool) : List (String × Shape) :=
  [("protocol_major", .constant 1), ("firmware_version", .word 0), ("device_id", .word 1),
    ("boot_id", .word 2), ("board_id", .word 3), ("max_payload", .number 0),
    ("auth_mode", .text (ascii "open-development")), ("channels", .array (elements [record channel])),
    ("targets", .array (elements (targets_shape has_upload)))]

def channel_shape (backend : String) : List (String × Shape) :=
  [("id", .constant 1), ("backend", .text (ascii backend)), ("controls", .array .nil),
    ("rx_queue", .constant 256), ("tx_queue", .constant 256), ("owned", .flag 0)]

def uart_shape : List (String × Shape) :=
  channel_shape "uart" ++
    [("config", record [("baud", .number 4), ("actual_baud", .number 5), ("data_bits", .number 6),
        ("parity", .word 6), ("stop_bits", .number 7), ("flow_control", .text (ascii "none"))]),
      ("configurable", .array (elements [.text (ascii "baud"), .text (ascii "data_bits"),
        .text (ascii "parity"), .text (ascii "stop_bits")])),
      ("baud_min", .constant 300), ("baud_max", .constant 2000000)]

def application_shape : List (String × Shape) := channel_shape "application"

def upload_shape : List (String × Shape) :=
  [("upload_id", .number 0), ("state", .word 0), ("size", .number 1), ("received", .number 2),
    ("sha256", .word 1), ("slot_touched", .flag 0), ("error", .word 2)]

/-- Numbers in a row. -/
def counters (i : ℕ) : List String → List (String × Shape)
  | [] => []
  | name :: names => (name, .number i) :: counters (i + 1) names

/-- The members every diagnostics reply has after its first. -/
def memory_shape : List (String × Shape) :=
  counters 1 ["heap_free", "heap_min", "stack_free", "stack_min"] ++
    (("lwip_free", .null) :: counters 5 ["peak_to_backend", "peak_to_peer"])

def uart_counters : List (String × Shape) :=
  counters 7 ["uart_rx_pending", "uart_rx_discarded", "uart_rx_overrun_events",
    "uart_rx_lost_bytes_minimum", "uart_tx_throttles"]

def application_counters : List (String × Shape) :=
  counters 12 ["application_rx_pending", "application_tx_pending", "application_rx_peak",
    "application_tx_peak", "application_rx_discarded", "application_tx_discarded"]

def sketch_counters : List (String × Shape) :=
  counters 18 ["sketch_input_discarded", "sketch_output_discarded", "sketch_output_rejected",
    "sketch_output_peak", "sketch_loop_boundaries", "sketch_epoch", "sketch_acknowledged_epoch"] ++
    [("sketch_input_enabled", .flag 0), ("sketch_output_enabled", .flag 1)]

def transport_counters : List (String × Shape) :=
  counters 25 ["ncm_worker_runs", "ncm_rx_frames", "ncm_rx_deferred", "ncm_rx_batch_peak",
    "ncm_mutex_contentions", "ncm_budget_exhaustions", "ncm_wake_requests", "tcp_accepts",
    "tcp_rx_callbacks", "tcp_rx_bytes", "tcp_sent_callbacks", "tcp_sent_bytes", "tcp_errors"]

def diagnostics_shape (backend transport : List (String × Shape)) : List (String × Shape) :=
  ("samples", .number 0) :: (memory_shape ++ (backend ++ transport))

/-! ## What the validator asks -/

/-- A fixed string of a shape is one that the validator takes. -/
def literal_fits : List Byte ⊕ ℕ → Bool
  | .inl l => l.length ≤ max_string && l.all fun b => decide (Plain b)
  | .inr _ => true

/-- What the validator asks of a shape. -/
def Fits (s : Shape) : Prop :=
  s.depth ≤ max_depth ∧ s.count ≤ max_tokens ∧ s.distinct = true ∧ s.spelled.all literal_fits = true

instance (s : Shape) : Decidable (Fits s) := inferInstanceAs (Decidable (_ ∧ _))

/-- What the validator asks of a word that is filled in. -/
def Sayable (l : List Byte) : Prop := l.length ≤ max_string ∧ ∀ b ∈ l, Plain b

theorem literal_fits_iff (l : List Byte) : literal_fits (.inl l) = true ↔ Sayable l := by
  rw [literal_fits, Bool.and_eq_true, decide_eq_true_eq, List.all_eq_true, Sayable]
  exact and_congr_right fun _ => forall₂_congr fun _ _ => decide_eq_true_iff

instance (l : List Byte) : Decidable (Sayable l) := decidable_of_iff _ (literal_fits_iff l)

/-- Every reply is of a shape that fits: the short ones, hello over either backend with and
without an upload target, and the diagnostics with the groups of the six formats. -/
theorem shapes_fit :
    (Fits refused ∧ Fits (granted []) ∧ Fits (granted configure_shape) ∧ Fits (granted status_shape) ∧
      Fits (granted upload_shape)) ∧
    (∀ channel ∈ [uart_shape, application_shape], ∀ has_upload : Bool,
      Fits (granted (hello_shape channel has_upload))) ∧
    ∀ backend ∈ [[], uart_counters, application_counters, application_counters ++ sketch_counters],
      ∀ transport ∈ [[], transport_counters], Fits (granted (diagnostics_shape backend transport)) := by
  simp only [refused, granted, record, fields, configure_shape, status_shape, upload_shape, hello_shape,
    uart_shape, application_shape, channel_shape, targets_shape, elements, diagnostics_shape, memory_shape,
    uart_counters, application_counters, sketch_counters, transport_counters, counters, List.cons_append,
    List.nil_append, List.forall_mem_cons]
  repeat rw [ascii_ofList]
  decide +kernel

section Documents

variable {s : Shape} {σ : Filling}

theorem spell_sayable (hs : Fits s) (hσ : ∀ i, Sayable (σ.word i)) {x : List Byte ⊕ ℕ} (hx : x ∈ s.spelled) :
    Sayable (spell σ x) := by
  cases x with
  | inl l => exact (literal_fits_iff l).mp (List.all_eq_true.mp hs.2.2.2 _ hx)
  | inr i => exact hσ i

/-- A shape that fits, filled with words that may be said, is a value within the limits. -/
theorem Fits.within (hs : Fits s) (hσ : ∀ i, Sayable (σ.word i)) :
    Within (s.value σ) ∧ (s.value σ).source = fill σ s.render := by
  have hspell : Spellable σ s.spelled := fun x hx => (spell_sayable hs hσ hx).2
  have hfills := Shape.fills σ s
  refine ⟨⟨?_, ?_, ?_, hfills.distinct hspell hs.2.2.1⟩, hfills.source hspell⟩
  · rw [hfills.depth]
    exact hs.1
  · rw [hfills.count]
    exact hs.2.1
  · intro w hw
    rw [hfills.texts] at hw
    obtain ⟨x, hx, rfl⟩ := List.mem_map.mp hw
    obtain ⟨hlen, hplain⟩ := spell_sayable hs hσ hx
    refine ⟨?_, text_chars hplain⟩
    rw [text_decoded hplain]
    exact hlen

/-- The document of a filled shape. -/
def document (σ : Filling) (s : Shape) : Document :=
  ⟨fill σ s.render, value_tokens 0 0xffff 0 (s.value σ)⟩

/-- Its text is accepted, and the document lists its tree. -/
theorem Fits.parse {l : Members} (hs : Fits (.object l)) (hσ : ∀ i, Sayable (σ.word i))
    (hlen : (fill σ (Shape.object l).render).length ≤ 4096) :
    Document.parse (fill σ (Shape.object l).render) = some (document σ (.object l)) := by
  obtain ⟨hwithin, hsource⟩ := hs.within hσ
  have hpos : 1 ≤ (fill σ (Shape.object l).render).length := by
    rw [Shape.render, fill_byte, List.length_cons]
    omega
  refine (parse_eq_some_iff _ _).mpr ⟨⟨hpos, hlen⟩, [], [], (Shape.object l).value σ, ?_, hwithin, rfl⟩
  rw [hsource]
  simp [blank]

theorem object_kind (l : Members) : kind_of ((Shape.object l).value σ) = .object := by
  cases l with
  | nil => rfl
  | cons name v rest => rfl

theorem Fits.spans (hs : Fits s) (hσ : ∀ i, Sayable (σ.word i)) :
    Spans (fill σ s.render) 0 (s.value σ).source := by
  rw [(hs.within hσ).2]
  exact List.prefix_rfl

theorem Fits.nodes (hs : Fits s) (hσ : ∀ i, Sayable (σ.word i)) :
    List.Forall₂ (TokenOf (fill σ s.render)) (document σ s).tokens (s.value σ).nodes :=
  value_tokens_nodes (s.value σ) (hs.spans hσ)

/-- A name with which a member of the root is found. -/
theorem Fits.find (hs : Fits s) (hσ : ∀ i, Sayable (σ.word i)) (key : String)
    (hkey : ∀ b ∈ ascii key, Plain b) {j : ℕ} {w : Value}
    (hmem : (plain_text (ascii key), j, w) ∈ members_of 0 (s.value σ)) :
    (document σ s).find key = some j ∧ (s.value σ).nodes[j]? = some (.value w) :=
  ⟨(find_eq_some_iff (hs.spans hσ) (hs.within hσ).1 key j).mpr ⟨_, w, hmem, text_decoded hkey⟩,
    (members_of_nodes (value_nodes_zero (s.value σ)) hmem).2⟩

theorem Fits.find_none (hs : Fits s) (hσ : ∀ i, Sayable (σ.word i)) (key : String)
    (hno : ∀ m ∈ members_of 0 (s.value σ), m.1.decoded ≠ ascii key) : (document σ s).find key = none := by
  cases hfind : (document σ s).find key with
  | none => rfl
  | some j =>
    obtain ⟨x, w, hmem, hx⟩ := (find_eq_some_iff (hs.spans hσ) (hs.within hσ).1 key j).mp hfind
    exact absurd hx (hno _ hmem)

theorem granted_members (l : List (String × Shape)) :
    members_of 0 ((granted l).value σ) =
      [(plain_text (ascii "ok"), 2, .boolean true), (plain_text (ascii "result"), 4, (record l).value σ)] := rfl

theorem refused_members :
    members_of 0 (refused.value σ) =
      [(plain_text (ascii "ok"), 2, .boolean false),
        (plain_text (ascii "error"), 4,
          (record [("code", .word 0), ("message", .word 0)]).value σ)] := rfl

theorem error_members :
    members_of 4 ((record [("code", .word 0), ("message", .word 0)]).value σ) =
      [(plain_text (ascii "code"), 6, .string (plain_text (σ.word 0))),
        (plain_text (ascii "message"), 8, .string (plain_text (σ.word 0)))] := rfl

/-- The names of a reply stand for themselves, and no two are the same. -/
theorem reply_names : (∀ key ∈ ["ok", "result", "error", "code", "message"], Sayable (ascii key)) ∧
    ascii "ok" ≠ ascii "result" ∧ ascii "ok" ≠ ascii "error" ∧ ascii "result" ≠ ascii "error" := by
  simp only [List.forall_mem_cons]
  repeat rw [ascii_ofList]
  refine ⟨⟨?_, ?_, ?_, ?_, ?_, List.forall_mem_nil _⟩, by decide, by decide, by decide⟩
  all_goals exact (literal_fits_iff _).mp rfl

/-- **A reply that grants is an answer.** -/
theorem granted_describes {l : List (String × Shape)} (hs : Fits (granted l))
    (hσ : ∀ i, Sayable (σ.word i)) (hlen : (fill σ (granted l).render).length ≤ 4096) :
    Describes (fill σ (granted l).render) := by
  obtain ⟨hplain, -, hne, hne'⟩ := reply_names
  have hokay := (hplain "ok" (by decide)).2
  have hresulting := (hplain "result" (by decide)).2
  obtain ⟨hok, hboolean⟩ := hs.find hσ "ok" hokay (by rw [granted_members]; exact List.mem_cons_self)
  obtain ⟨hresult, hobject⟩ := hs.find hσ "result" hresulting
    (by rw [granted_members]; exact List.mem_cons_of_mem _ List.mem_cons_self)
  have herror : (document σ (granted l)).find "error" = none := by
    refine hs.find_none hσ "error" ?_
    rw [granted_members, List.forall_mem_cons, List.forall_mem_singleton, text_decoded hokay,
      text_decoded hresulting]
    exact ⟨hne, hne'⟩
  refine ⟨document σ (granted l), hs.parse hσ hlen, root_kind _ _ _, true, 2, hok, ?_, ?_⟩
  · exact (boolean_eq_some_iff rfl (hs.nodes hσ) 2 true).mpr hboolean
  · refine ⟨herror, 4, hresult, ?_⟩
    rw [(token_kind (hs.nodes hσ) hobject).2]
    exact object_kind _

/-- **A reply that refuses is an answer.** -/
theorem refused_describes (hσ : ∀ i, Sayable (σ.word i)) (hlen : (fill σ refused.render).length ≤ 4096) :
    Describes (fill σ refused.render) := by
  have hs := shapes_fit.1.1
  obtain ⟨hplain, hne, -, hne'⟩ := reply_names
  have hokay := (hplain "ok" (by decide)).2
  have hfailing := (hplain "error" (by decide)).2
  obtain ⟨hok, hboolean⟩ := hs.find hσ "ok" hokay (by rw [refused_members]; exact List.mem_cons_self)
  obtain ⟨herror, hobject⟩ := hs.find hσ "error" hfailing
    (by rw [refused_members]; exact List.mem_cons_of_mem _ List.mem_cons_self)
  have hresult : (document σ refused).find "result" = none := by
    refine hs.find_none hσ "result" ?_
    rw [refused_members, List.forall_mem_cons, List.forall_mem_singleton, text_decoded hokay,
      text_decoded hfailing]
    exact ⟨hne, hne'.symm⟩
  have hchild : ∀ (name : String) (j : ℕ), (∀ b ∈ ascii name, Plain b) →
      (plain_text (ascii name), j, .string (plain_text (σ.word 0))) ∈
        members_of 4 ((record [("code", .word 0), ("message", .word 0)]).value σ) →
      ∃ k, child (document σ refused) 4 name = some k ∧ ((document σ refused).token k).kind = .string := by
    intro name j hname hmem
    have hnode := (members_of_nodes hobject hmem).2
    refine ⟨j, (member_eq_some_iff (hs.spans hσ) (hs.within hσ).1 hobject (ascii name) j).mpr
      ⟨_, _, hmem, text_decoded hname⟩, ?_⟩
    exact (token_kind (hs.nodes hσ) hnode).2
  refine ⟨document σ refused, hs.parse hσ hlen, root_kind _ _ _, false, 2, hok, ?_, ?_⟩
  · exact (boolean_eq_some_iff rfl (hs.nodes hσ) 2 false).mpr hboolean
  · refine ⟨hresult, 4, herror, ?_, ?_⟩
    · rw [(token_kind (hs.nodes hσ) hobject).2]
      exact @object_kind σ (fields [("code", .word 0), ("message", .word 0)])
    · rw [List.forall_mem_cons, List.forall_mem_singleton]
      refine ⟨hchild "code" 6 (hplain _ (by decide)).2 ?_, hchild "message" 8 (hplain _ (by decide)).2 ?_⟩
      · rw [error_members]
        exact List.mem_cons_self
      · rw [error_members]
        exact List.mem_cons_of_mem _ List.mem_cons_self

end Documents

/-! ## Short replies -/

/-- A filling with the words, numbers and flags in the order of the format. -/
def filling (words : List (List Byte)) (numbers : List ℕ) (flags : List Bool) : Filling where
  flag i := flags.getD i false
  number i := numbers.getD i 0
  word i := words.getD i []

theorem filling_sayable {words : List (List Byte)} (h : ∀ l ∈ words, Sayable l) (numbers : List ℕ)
    (flags : List Bool) (i : ℕ) : Sayable ((filling words numbers flags).word i) := by
  by_cases hi : i < words.length
  · have hmem : words.getD i [] ∈ words := by
      rw [List.getD_eq_getElem _ _ hi]
      exact List.getElem_mem hi
    exact h _ hmem
  · have hnil : words.getD i [] = [] := List.getD_eq_default _ _ (Nat.not_lt.mp hi)
    change Sayable (words.getD i [])
    rw [hnil]
    exact ⟨Nat.zero_le _, fun _ hb => absurd hb List.not_mem_nil⟩

/-- A granting reply, by its format. -/
theorem describes_of_format {l : List (String × Shape)} (hs : Fits (granted l))
    {words : List (List Byte)} {numbers : List ℕ} {flags : List Bool} {body : List Byte}
    (hbody : body = fill (filling words numbers flags) (granted l).render)
    (hwords : ∀ w ∈ words, Sayable w) (hlen : body.length ≤ 4096) : Describes body := by
  rw [hbody] at hlen ⊢
  exact granted_describes hs (filling_sayable hwords numbers flags) hlen

theorem refused_render : refused.render =
    bytes (ascii "\x7b\"ok\":false,\"error\":\x7b\"code\":\"") ++ .word 0 ::
      (bytes (ascii "\",\"message\":\"") ++ .word 0 :: bytes (ascii "\"\x7d\x7d")) := by
  simp only [refused, record, fields, Shape.render, Members.render, flag_text]
  repeat rw [ascii_ofList]
  rfl

/-- An error reply whose code is a word. -/
theorem error_describes {code : String} (h : Sayable (ascii code)) (hlen : (error_body code).length ≤ 4096) :
    Describes (error_body code) := by
  have hbody : error_body code = fill (filling [ascii code] [] []) refused.render := by
    rw [refused_render]
    simp [error_body, filling]
  rw [hbody] at hlen ⊢
  refine refused_describes (filling_sayable ?_ _ _) hlen
  rw [List.forall_mem_singleton]
  exact h

theorem success_describes : Describes success_body := by
  have hbody : success_body = fill (filling [] [] []) (granted []).render := by
    simp only [success_body, granted, record, fields, Shape.render, Members.render, flag_text]
    repeat rw [ascii_ofList]
    rfl
  refine describes_of_format shapes_fit.1.2.1 hbody (by decide) ?_
  rw [success_body, ascii_ofList]
  decide

theorem configure_render : (granted configure_shape).render =
    bytes (ascii "\x7b\"ok\":true,\"result\":\x7b\"baud\":") ++ .number 0 ::
      (bytes (ascii ",\"actual_baud\":") ++ .number 1 :: (bytes (ascii ",\"data_bits\":") ++ .number 2 ::
        (bytes (ascii ",\"parity\":\"") ++ .word 0 :: (bytes (ascii "\",\"stop_bits\":") ++ .number 3 ::
          bytes (ascii ",\"flow_control\":\"none\"\x7d\x7d"))))) := by
  simp only [granted, record, fields, configure_shape, Shape.render, Members.render, flag_text]
  repeat rw [ascii_ofList]
  rfl

theorem parity_sayable (p : SerialParity) : Sayable (parity_name p) := by
  cases p
  all_goals
    rw [parity_name, ascii_ofList]
    exact (literal_fits_iff _).mp rfl

theorem configure_describes (c : SerialConfiguration) (hlen : (configure_body c).length ≤ 4096) :
    Describes (configure_body c) := by
  have hbody : configure_body c = fill (filling [parity_name c.parity]
      [c.baud, c.actual_baud, c.data_bits, c.stop_bits] []) (granted configure_shape).render := by
    rw [configure_render]
    simp [configure_body, filling]
  refine describes_of_format shapes_fit.1.2.2.1 hbody ?_ hlen
  rw [List.forall_mem_singleton]
  exact parity_sayable c.parity

theorem status_render : (granted status_shape).render =
    bytes (ascii "\x7b\"ok\":true,\"result\":\x7b\"channel_id\":1,\"backend_rx_bytes\":") ++ .number 0 ::
      (bytes (ascii ",\"backend_tx_bytes\":") ++ .number 1 :: (bytes (ascii ",\"pending_to_backend\":") ++
        .number 2 :: (bytes (ascii ",\"pending_to_peer\":") ++ .number 3 :: bytes (ascii "\x7d\x7d")))) := by
  simp only [granted, record, fields, status_shape, Shape.render, Members.render, flag_text]
  repeat rw [ascii_ofList]
  rfl

theorem status_describes (rx tx pending_rx pending_tx : ℕ)
    (hlen : (status_body rx tx pending_rx pending_tx).length ≤ 4096) :
    Describes (status_body rx tx pending_rx pending_tx) := by
  have hbody : status_body rx tx pending_rx pending_tx =
      fill (filling [] [rx, tx, pending_rx, pending_tx] []) (granted status_shape).render := by
    rw [status_render]
    simp [status_body, filling]
  exact describes_of_format shapes_fit.1.2.2.2.1 hbody (by decide) hlen

/-! ## Hello -/

/-- The format of the upload target, which is printed first. -/
def targets_format (has_upload : Bool) : List Mark :=
  if has_upload then
    bytes (ascii "[\x7b\"id\":") ++ .number 1 :: (bytes (ascii ",\"format\":\"") ++ .word 4 ::
      (bytes (ascii "\",\"max_size\":") ++ .number 2 :: (bytes (ascii ",\"max_chunk\":") ++ .number 3 ::
        (bytes (ascii ",\"authorization\":\"") ++ .word 5 :: bytes (ascii "\"\x7d]")))))
  else bytes (ascii "[]")

/-- The formats of hello start alike. -/
def hello_format : List Mark :=
  bytes (ascii "\x7b\"ok\":true,\"result\":\x7b\"protocol_major\":1,\"firmware_version\":\"") ++ .word 0 ::
    (bytes (ascii "\",\"device_id\":\"") ++ .word 1 :: (bytes (ascii "\",\"boot_id\":\"") ++ .word 2 ::
      (bytes (ascii "\",\"board_id\":\"") ++ .word 3 :: (bytes (ascii "\",\"max_payload\":") ++ .number 0 ::
        bytes (ascii ",\"auth_mode\":\"open-development\",\"channels\":[\x7b\"id\":1,\"backend\":\"")))))

/-- The shape of the UART hello renders to the format that `hello_uart_body` fills. -/
theorem hello_uart_render (has_upload : Bool) : (granted (hello_shape uart_shape has_upload)).render =
    hello_format ++ bytes (ascii "uart\",\"controls\":[],\"rx_queue\":256,\"tx_queue\":256,\"owned\":") ++
      .flag 0 :: (bytes (ascii ",\"config\":\x7b\"baud\":") ++ .number 4 ::
        (bytes (ascii ",\"actual_baud\":") ++ .number 5 :: (bytes (ascii ",\"data_bits\":") ++ .number 6 ::
          (bytes (ascii ",\"parity\":\"") ++ .word 6 :: (bytes (ascii "\",\"stop_bits\":") ++ .number 7 ::
            (bytes (ascii (",\"flow_control\":\"none\"\x7d,\"configurable\":[\"baud\",\"data_bits\",\"parity\","
                ++ "\"stop_bits\"],\"baud_min\":300,\"baud_max\":2000000\x7d],\"targets\":")) ++
              (targets_format has_upload ++ bytes (ascii "\x7d\x7d")))))))) := by
  cases has_upload
  all_goals
    simp only [granted, record, fields, hello_shape, uart_shape, channel_shape, targets_shape, elements,
      hello_format, targets_format, List.cons_append, List.nil_append]
    repeat rw [ascii_ofList]
    decide +kernel

theorem hello_application_render (has_upload : Bool) :
    (granted (hello_shape application_shape has_upload)).render =
      hello_format ++
        bytes (ascii "application\",\"controls\":[],\"rx_queue\":256,\"tx_queue\":256,\"owned\":") ++
        .flag 0 :: (bytes (ascii "\x7d],\"targets\":") ++
          (targets_format has_upload ++ bytes (ascii "\x7d\x7d"))) := by
  cases has_upload
  all_goals
    simp only [granted, record, fields, hello_shape, application_shape, channel_shape, targets_shape, elements,
      hello_format, targets_format]
    repeat rw [ascii_ofList]
    decide +kernel

/-- The words a hello describes the device with. -/
theorem hex_id_sayable {l : List Byte} (h : Session.hex_id l = true) : Sayable l := by
  rw [Session.hex_id, Bool.and_eq_true, decide_eq_true_eq, List.all_eq_true] at h
  refine ⟨by rw [h.1]; decide, fun b hb => ?_⟩
  have hb := h.2 b hb
  simp only [Bool.or_eq_true, Bool.and_eq_true, decide_eq_true_eq, ge_iff_le, UInt8.le_iff_toNat_le] at hb
  unfold Plain
  simp at hb
  omega

theorem name_sayable {l : List Byte} (h : Session.name l = true) : Sayable l := by
  rw [Session.name, Bool.and_eq_true, Bool.and_eq_true, decide_eq_true_eq, decide_eq_true_eq,
    List.all_eq_true] at h
  refine ⟨h.1.2.trans (by decide), fun b hb => ?_⟩
  have hb := h.2 b hb
  simp only [Bool.or_eq_true, Bool.and_eq_true, decide_eq_true_eq, ge_iff_le, UInt8.le_iff_toNat_le,
    ← UInt8.toNat_inj] at hb
  unfold Plain
  simp at hb
  omega

/-- What hello fills in; the target's share is empty where there is none. -/
def hello_filling (i : Identity) (limit : ℕ) (owned : Bool) (c : SerialConfiguration)
    (target : Option UploadTarget) : Filling :=
  filling [i.firmware_version, i.device_id, i.boot_id, i.board_id,
      (target.bind UploadTarget.format).getD [], (target.bind UploadTarget.authorization).getD [],
      parity_name c.parity]
    [limit, target.elim 0 UploadTarget.id, target.elim 0 UploadTarget.max_size,
      target.elim 0 UploadTarget.max_chunk, c.baud, c.actual_baud, c.data_bits, c.stop_bits]
    [owned]

section Hello

variable {i : Identity} {limit : ℕ} {owned : Bool} {c : SerialConfiguration} {target : Option UploadTarget}

theorem empty_sayable : Sayable [] := ⟨Nat.zero_le _, fun _ hb => absurd hb List.not_mem_nil⟩

theorem target_sayable (ht : target.all Session.target_ok = true) :
    Sayable ((target.bind UploadTarget.format).getD []) ∧
      Sayable ((target.bind UploadTarget.authorization).getD []) := by
  cases target with
  | none => exact ⟨empty_sayable, empty_sayable⟩
  | some t =>
    simp only [Option.all_some, Session.target_ok, Bool.and_eq_true] at ht
    obtain ⟨⟨⟨⟨⟨_, hformat⟩, hauthorization⟩, _⟩, _⟩, _⟩ := ht
    exact ⟨name_sayable hformat, name_sayable hauthorization⟩

theorem hello_sayable (hi : Session.identity_ok i = true) (ht : target.all Session.target_ok = true) (n : ℕ) :
    Sayable ((hello_filling i limit owned c target).word n) := by
  simp only [Session.identity_ok, Bool.and_eq_true] at hi
  obtain ⟨⟨⟨hdevice, hboot⟩, hboard⟩, hversion⟩ := hi
  obtain ⟨hformat, hauthorization⟩ := target_sayable ht
  rw [hello_filling]
  refine filling_sayable ?_ _ _ n
  simp only [List.forall_mem_cons]
  exact ⟨name_sayable hversion, hex_id_sayable hdevice, hex_id_sayable hboot, name_sayable hboard, hformat,
    hauthorization, parity_sayable c.parity, fun _ hw => absurd hw List.not_mem_nil⟩

theorem fill_targets : fill (hello_filling i limit owned c target) (targets_format target.isSome) =
    target.elim (ascii "[]") targets_body := by
  cases target with
  | none => simp [targets_format]
  | some t => simp [targets_format, targets_body, hello_filling, filling]

theorem fill_hello : fill (hello_filling i limit owned c target) hello_format = hello_head i limit := by
  simp [hello_format, hello_head, hello_filling, filling]

theorem hello_uart_describes (hi : Session.identity_ok i = true) (ht : target.all Session.target_ok = true)
    (hlen : (hello_uart_body i limit owned c (target.elim (ascii "[]") targets_body)).length ≤ 4096) :
    Describes (hello_uart_body i limit owned c (target.elim (ascii "[]") targets_body)) := by
  have hbody : hello_uart_body i limit owned c (target.elim (ascii "[]") targets_body) =
      fill (hello_filling i limit owned c target)
        (granted (hello_shape uart_shape target.isSome)).render := by
    rw [hello_uart_render]
    simp only [fill_append, fill_hello, fill_flag, fill_number, fill_word, fill_bytes, fill_targets]
    simp [hello_uart_body, hello_filling, filling, flag_text, bool_name]
  rw [hbody] at hlen ⊢
  exact granted_describes (shapes_fit.2.1 _ (by simp) _) (hello_sayable hi ht) hlen

theorem hello_application_describes (hi : Session.identity_ok i = true)
    (ht : target.all Session.target_ok = true)
    (hlen : (hello_application_body i limit owned (target.elim (ascii "[]") targets_body)).length ≤ 4096) :
    Describes (hello_application_body i limit owned (target.elim (ascii "[]") targets_body)) := by
  have hbody : hello_application_body i limit owned (target.elim (ascii "[]") targets_body) =
      fill (hello_filling i limit owned {} target)
        (granted (hello_shape application_shape target.isSome)).render := by
    rw [hello_application_render]
    simp only [fill_append, fill_hello, fill_flag, fill_bytes, fill_targets]
    simp [hello_application_body, hello_filling, filling, flag_text, bool_name]
  rw [hbody] at hlen ⊢
  exact granted_describes (shapes_fit.2.1 _ (by simp) _) (hello_sayable hi ht) hlen

end Hello

/-! ## Upload status -/

theorem upload_render : (granted upload_shape).render =
    bytes (ascii "\x7b\"ok\":true,\"result\":\x7b\"upload_id\":") ++ .number 0 ::
      (bytes (ascii ",\"state\":\"") ++ .word 0 :: (bytes (ascii "\",\"size\":") ++ .number 1 ::
        (bytes (ascii ",\"received\":") ++ .number 2 :: (bytes (ascii ",\"sha256\":\"") ++ .word 1 ::
          (bytes (ascii "\",\"slot_touched\":") ++ .flag 0 :: (bytes (ascii ",\"error\":\"") ++ .word 2 ::
            bytes (ascii "\"\x7d\x7d"))))))) := by
  simp only [granted, record, fields, upload_shape, Shape.render, Members.render, flag_text]
  repeat rw [ascii_ofList]
  rfl

theorem upload_error_sayable (e : UploadError) : Sayable (ascii (upload_error_name e)) := by
  cases e
  all_goals
    rw [upload_error_name, ascii_ofList]
    exact (literal_fits_iff _).mp rfl

theorem upload_state_sayable (s : UploadState) : Sayable (ascii (upload_state_name s)) := by
  cases s
  all_goals
    rw [upload_state_name, ascii_ofList]
    exact (literal_fits_iff _).mp rfl

theorem hex_digit_plain {n : ℕ} (h : n < 16) : Plain (hex_digit n) := by
  rw [hex_digit, ascii_ofList]
  interval_cases n <;> decide

theorem hex_text_length (digest : List Byte) : (hex_text digest).length = 2 * digest.length := by
  induction digest with
  | nil => rfl
  | cons b digest ih =>
    rw [hex_text, List.flatMap_cons, ← hex_text, List.length_append, ih, List.length_cons]
    simp only [List.length_cons, List.length_nil]
    omega

theorem hex_text_sayable {digest : List Byte} (h : digest.length ≤ 32) : Sayable (hex_text digest) := by
  refine ⟨?_, fun b hb => ?_⟩
  · rw [hex_text_length]
    change _ ≤ 64
    omega
  · obtain ⟨x, -, hx⟩ := List.mem_flatMap.mp hb
    have hlt := x.toNat_lt
    rw [List.mem_cons, List.mem_singleton] at hx
    rcases hx with rfl | rfl
    · exact hex_digit_plain (by omega)
    · exact hex_digit_plain (by omega)

theorem upload_describes {s : UploadStatus} (hdigest : s.digest.length ≤ 32)
    (hlen : (upload_body s).length ≤ 4096) : Describes (upload_body s) := by
  have hbody : upload_body s = fill (filling
      [ascii (upload_state_name s.state), hex_text s.digest, ascii (upload_error_name s.error)]
      [s.id, s.size, s.received] [s.slot_touched]) (granted upload_shape).render := by
    rw [upload_render]
    simp [upload_body, filling, flag_text, bool_name]
  refine describes_of_format shapes_fit.1.2.2.2.2 hbody ?_ hlen
  simp only [List.forall_mem_cons]
  exact ⟨upload_state_sayable s.state, hex_text_sayable hdigest, upload_error_sayable s.error,
    fun _ hw => absurd hw List.not_mem_nil⟩

/-! ## Diagnostics -/

/-- A member with its leading comma. -/
def member_format (m : String × Shape) : List Mark :=
  bytes (ascii ",\"" ++ ascii m.1 ++ ascii "\":") ++ m.2.render

theorem member_format_eq (m : String × Shape) :
    member_format m = .byte 0x2c :: (bytes (0x22 :: (ascii m.1 ++ [0x22, 0x3a])) ++ m.2.render) := by
  have hopen : ascii ",\"" = [0x2c, 0x22] := ascii_ofList _
  have hclose : ascii "\":" = [0x22, 0x3a] := ascii_ofList _
  rw [member_format, hopen, hclose]
  rfl

/-- A record's members, each but the first with its comma. -/
theorem fields_render (m : String × Shape) (rest : List (String × Shape)) :
    (fields (m :: rest)).render =
      bytes (0x22 :: (ascii m.1 ++ [0x22, 0x3a])) ++ (m.2.render ++ rest.flatMap member_format) := by
  induction rest generalizing m with
  | nil =>
    rw [fields, fields, Members.render, List.flatMap_nil, List.append_nil]
  | cons next rest ih =>
    have hnext := ih next
    rw [fields] at hnext
    rw [fields, fields, Members.render_more, hnext, List.flatMap_cons, member_format_eq]
    simp

/-- The envelope of a successful reply around its members. -/
theorem granted_render (m : String × Shape) (rest : List (String × Shape)) :
    (granted (m :: rest)).render =
      bytes (ascii "\x7b\"ok\":true,\"result\":\x7b" ++ 0x22 :: (ascii m.1 ++ [0x22, 0x3a])) ++
        (m.2.render ++ (rest.flatMap member_format ++ bytes (ascii "\x7d\x7d"))) := by
  have hhead : ascii "\x7b\"ok\":true,\"result\":\x7b" =
      0x7b :: 0x22 :: (ascii "ok" ++ 0x22 :: 0x3a :: (flag_text true ++ 0x2c :: 0x22 ::
        (ascii "result" ++ [0x22, 0x3a, 0x7b]))) := by
    rw [flag_text, if_pos rfl]
    repeat rw [ascii_ofList]
    rfl
  have htail : ascii "\x7d\x7d" = [0x7d, 0x7d] := ascii_ofList _
  have hrecord : (record (m :: rest)).render = .byte 0x7b ::
      (bytes (0x22 :: (ascii m.1 ++ [0x22, 0x3a])) ++ (m.2.render ++
        (rest.flatMap member_format ++ [.byte 0x7d]))) := by
    rw [record, Shape.render, fields_render]
    simp
  rw [granted, record, Shape.render, fields, fields, fields, Members.render_more, Members.render,
    Shape.render, hrecord, hhead, htail]
  simp [bytes]

/-- A list of counters is filled in order, from the numbers at its place. -/
theorem fill_counters {words : List (List Byte)} {numbers : List ℕ} {flags : List Bool} :
    ∀ (ms : List (String × ℕ)) {i : ℕ}, ms.map Prod.snd <+: numbers.drop i →
      fill (filling words numbers flags) ((counters i (ms.map Prod.fst)).flatMap member_format) =
        number_members ms
  | [], i, _ => rfl
  | m :: ms, i, h => by
      obtain ⟨rest, hrest⟩ := h
      have hi : numbers.drop i = m.2 :: (ms.map Prod.snd ++ rest) := hrest.symm
      have hvalue : numbers.getD i 0 = m.2 := by
        rw [List.getD_eq_getElem?_getD, ← List.head?_drop, hi]
        rfl
      have htail : ms.map Prod.snd <+: numbers.drop (i + 1) := by
        rw [← List.tail_drop, hi]
        exact ⟨rest, rfl⟩
      have hfirst : fill (filling words numbers flags) (member_format (m.1, .number i)) =
          number_member m.1 m.2 := by
        rw [member_format, Shape.render, fill_append, fill_bytes, fill_number, fill_nil, List.append_nil,
          number_member]
        change _ ++ decimal (numbers.getD i 0) = _
        rw [hvalue]
      rw [List.map_cons, counters, List.flatMap_cons, fill_append, hfirst, fill_counters ms htail]
      rfl

/-- The numbers of the diagnostics, in the order of the groups. -/
def diagnostics_numbers (m : MemorySamples) (peak_rx peak_tx : ℕ) (b : BackendDiagnostics)
    (t : TransportDiagnostics) : List ℕ :=
  [m.count, m.heap_free, m.heap_min, m.stack_free, m.stack_min, peak_rx, peak_tx,
    b.rx_pending, b.rx_discarded, b.rx_overrun_events, b.rx_lost_bytes_minimum, b.tx_throttle_events,
    b.rx_pending, b.tx_pending, b.rx_peak, b.tx_peak, b.rx_discarded, b.tx_discarded,
    b.sketch_input_discarded, b.sketch_output_discarded, b.sketch_output_rejected, b.sketch_output_peak,
    b.sketch_loop_boundaries, b.sketch_epoch, b.sketch_acknowledged_epoch,
    t.ncm_worker_runs, t.ncm_rx_frames, t.ncm_rx_deferred, t.ncm_rx_batch_peak, t.ncm_mutex_contentions,
    t.ncm_budget_exhaustions, t.ncm_wake_requests, t.tcp_accepts, t.tcp_rx_callbacks, t.tcp_rx_bytes,
    t.tcp_sent_callbacks, t.tcp_sent_bytes, t.tcp_errors]

/-- What the diagnostics fill in. -/
def diagnostics_filling (m : MemorySamples) (peak_rx peak_tx : ℕ) (b : BackendDiagnostics)
    (t : TransportDiagnostics) : Filling :=
  filling [] (diagnostics_numbers m peak_rx peak_tx b t) [b.sketch_input_enabled, b.sketch_output_enabled]

section Diagnostics

variable {m : MemorySamples} {peak_rx peak_tx : ℕ} {b : BackendDiagnostics} {t : TransportDiagnostics}

/-- A group of counters, at its place among the numbers. -/
theorem fill_group {i : ℕ} {names : List String} {ms : List (String × ℕ)} (hnames : names = ms.map Prod.fst)
    (hvalues : ms.map Prod.snd <+: (diagnostics_numbers m peak_rx peak_tx b t).drop i) :
    fill (diagnostics_filling m peak_rx peak_tx b t) ((counters i names).flatMap member_format) =
      number_members ms := by
  rw [hnames]
  exact fill_counters ms hvalues

theorem fill_flag_member (name : String) (i : ℕ) (σ : Filling) :
    fill σ (member_format (name, .flag i)) =
      ascii ",\"" ++ ascii name ++ ascii "\":" ++ bool_name (σ.flag i) := by
  rw [member_format, Shape.render, fill_append, fill_bytes, fill_flag, fill_nil, List.append_nil]
  rfl

theorem fill_memory : fill (diagnostics_filling m peak_rx peak_tx b t)
      (bytes (ascii "\x7b\"ok\":true,\"result\":\x7b" ++ 0x22 :: (ascii "samples" ++ [0x22, 0x3a])) ++
        (.number 0 :: memory_shape.flatMap member_format)) = memory_members m peak_rx peak_tx := by
  have hhead : ascii "\x7b\"ok\":true,\"result\":\x7b" ++ 0x22 :: (ascii "samples" ++ [0x22, 0x3a]) =
      ascii "\x7b\"ok\":true,\"result\":\x7b\"samples\":" := by
    repeat rw [ascii_ofList]
    rfl
  have hlwip : member_format ("lwip_free", .null) = bytes (ascii ",\"lwip_free\":null") := by
    rw [member_format, Shape.render]
    repeat rw [ascii_ofList]
    rfl
  have hsizes : fill (diagnostics_filling m peak_rx peak_tx b t)
      ((counters 1 ["heap_free", "heap_min", "stack_free", "stack_min"]).flatMap member_format) =
        number_members [("heap_free", m.heap_free), ("heap_min", m.heap_min), ("stack_free", m.stack_free),
          ("stack_min", m.stack_min)] := fill_group rfl ⟨_, rfl⟩
  have hpeaks : fill (diagnostics_filling m peak_rx peak_tx b t)
      ((counters 5 ["peak_to_backend", "peak_to_peer"]).flatMap member_format) =
        number_members [("peak_to_backend", peak_rx), ("peak_to_peer", peak_tx)] := fill_group rfl ⟨_, rfl⟩
  rw [memory_shape, List.flatMap_append, List.flatMap_cons, hlwip, hhead, fill_append, fill_bytes, fill_number,
    fill_append, fill_append, fill_bytes, hsizes, hpeaks, memory_members]
  simp only [List.append_assoc]
  rfl

theorem fill_uart : fill (diagnostics_filling m peak_rx peak_tx b t) (uart_counters.flatMap member_format) =
    uart_members b :=
  fill_group rfl ⟨_, rfl⟩

theorem fill_application : fill (diagnostics_filling m peak_rx peak_tx b t)
    (application_counters.flatMap member_format) = application_members b :=
  fill_group rfl ⟨_, rfl⟩

theorem fill_transport : fill (diagnostics_filling m peak_rx peak_tx b t)
    (transport_counters.flatMap member_format) = transport_members t :=
  fill_group rfl ⟨_, rfl⟩

theorem fill_sketch : fill (diagnostics_filling m peak_rx peak_tx b t)
    (sketch_counters.flatMap member_format) = sketch_members b := by
  have hcounters : fill (diagnostics_filling m peak_rx peak_tx b t)
      ((counters 18 ["sketch_input_discarded", "sketch_output_discarded", "sketch_output_rejected",
        "sketch_output_peak", "sketch_loop_boundaries", "sketch_epoch",
        "sketch_acknowledged_epoch"]).flatMap member_format) =
      number_members [("sketch_input_discarded", b.sketch_input_discarded),
        ("sketch_output_discarded", b.sketch_output_discarded),
        ("sketch_output_rejected", b.sketch_output_rejected), ("sketch_output_peak", b.sketch_output_peak),
        ("sketch_loop_boundaries", b.sketch_loop_boundaries), ("sketch_epoch", b.sketch_epoch),
        ("sketch_acknowledged_epoch", b.sketch_acknowledged_epoch)] := fill_group rfl ⟨_, rfl⟩
  have hin : ascii ",\"" ++ ascii "sketch_input_enabled" ++ ascii "\":" =
      ascii ",\"sketch_input_enabled\":" := by
    repeat rw [ascii_ofList]
    rfl
  have hout : ascii ",\"" ++ ascii "sketch_output_enabled" ++ ascii "\":" =
      ascii ",\"sketch_output_enabled\":" := by
    repeat rw [ascii_ofList]
    rfl
  rw [sketch_counters, List.flatMap_append, List.flatMap_cons, List.flatMap_cons, List.flatMap_nil,
    List.append_nil, fill_append, fill_append, hcounters, fill_flag_member, fill_flag_member, hin, hout,
    sketch_members]
  simp only [List.append_assoc]
  rfl

/-- The text of the backend's group. -/
def backend_text (kind : BackendKind) (sketch : List Byte) (backend : Option BackendDiagnostics) : List Byte :=
  backend.elim [] fun b => if kind = .uart then uart_members b else application_members b ++ sketch

theorem diagnostics_body_eq (kind : BackendKind) (backend : Option BackendDiagnostics) (sketch : List Byte) :
    diagnostics_body m peak_rx peak_tx kind backend sketch =
      memory_members m peak_rx peak_tx ++ (backend_text kind sketch backend ++
        (m.transport.elim [] transport_members ++ ascii "\x7d\x7d")) := by
  unfold diagnostics_body
  rw [List.append_assoc, List.append_assoc]
  cases backend with
  | none => cases m.transport <;> rfl
  | some b => cases kind <;> cases m.transport <;> rfl

/-- The backend part of the diagnostics is one of the four groups. -/
theorem backend_group (kind : BackendKind) {backend : Option BackendDiagnostics} {sketch : List Byte}
    (hsketch : sketch = [] ∨ ∃ b, backend = some b ∧ sketch = sketch_members b) :
    ∃ group ∈ [[], uart_counters, application_counters, application_counters ++ sketch_counters],
      fill (diagnostics_filling m peak_rx peak_tx (backend.getD {}) t) (group.flatMap member_format) =
        backend_text kind sketch backend := by
  cases backend with
  | none => exact ⟨[], by simp, rfl⟩
  | some b =>
    cases kind with
    | uart => exact ⟨uart_counters, by simp, fill_uart⟩
    | application =>
      rcases hsketch with rfl | ⟨_, hb, rfl⟩
      · refine ⟨application_counters, by simp, fill_application.trans ?_⟩
        exact (List.append_nil _).symm
      · cases hb
        refine ⟨application_counters ++ sketch_counters, by simp, ?_⟩
        rw [List.flatMap_append, fill_append]
        exact congrArg₂ (· ++ ·) fill_application fill_sketch

theorem transport_group (transport : Option TransportDiagnostics) :
    ∃ group ∈ [[], transport_counters],
      fill (diagnostics_filling m peak_rx peak_tx b (transport.getD {})) (group.flatMap member_format) =
        transport.elim [] transport_members := by
  cases transport with
  | none => exact ⟨[], by simp, rfl⟩
  | some t => exact ⟨transport_counters, by simp, fill_transport⟩

/-- **The diagnostics describe themselves**, with whatever groups they are printed. -/
theorem diagnostics_describes (kind : BackendKind) {backend : Option BackendDiagnostics} {sketch : List Byte}
    (hsketch : sketch = [] ∨ ∃ b, backend = some b ∧ sketch = sketch_members b)
    (hlen : (diagnostics_body m peak_rx peak_tx kind backend sketch).length ≤ 4096) :
    Describes (diagnostics_body m peak_rx peak_tx kind backend sketch) := by
  obtain ⟨group, hgroup, htext⟩ :=
    @backend_group m peak_rx peak_tx (m.transport.getD {}) kind backend sketch hsketch
  obtain ⟨group', hgroup', htext'⟩ := @transport_group m peak_rx peak_tx (backend.getD {}) m.transport
  have hbody : diagnostics_body m peak_rx peak_tx kind backend sketch =
      fill (diagnostics_filling m peak_rx peak_tx (backend.getD {}) (m.transport.getD {}))
        (granted (diagnostics_shape group group')).render := by
    rw [diagnostics_shape, granted_render, List.flatMap_append, List.flatMap_append, diagnostics_body_eq,
      ← @fill_memory m peak_rx peak_tx (backend.getD {}) (m.transport.getD {}), ← htext, ← htext']
    simp [Shape.render]
  rw [hbody] at hlen ⊢
  exact granted_describes (shapes_fit.2.2 _ hgroup _ hgroup') (filling_sayable (by simp) _ _) hlen

end Diagnostics

end Firmingo
