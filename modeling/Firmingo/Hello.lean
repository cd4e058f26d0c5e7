/-
The hello exchange: when a client gets the description it asked for.

`hello` negotiates first and formats afterwards, so whether the description fits
the limit it has just put in force is a matter of lengths. This file says what the
dispatch of a valid hello does: it answers the description if that fits, and
otherwise an error on a session that counts as negotiated.
-/
import Firmingo.Lengths
import Firmingo.Dispatch
import Firmingo.System
import Firmingo.Backends

set_option autoImplicit false

open Octets

namespace Firmingo

open Protocol Machine

/-! ## What a valid hello is -/

variable {r : Request}

/-- A valid hello offers between 512 and 65536. -/
theorem request_hello_offer {d : Json.Document} {r' : Request} (h : request_hello d r = some r')
    (hr : r.offer = max_payload) : min_offer ≤ r'.offer ∧ r'.offer ≤ 65536 := by
  have hrange : ∀ {offer}, hello_offer d r.offer = some offer → min_offer ≤ offer ∧ offer ≤ 65536 := by
    intro offer ho
    unfold hello_offer at ho
    split at ho
    · cases ho
      rw [hr]
      decide
    · have hfilter := (Option.filter_eq_some_iff.mp ho).2
      simp only [Bool.not_eq_eq_eq_not, Bool.not_true, Bool.or_eq_false_iff, decide_eq_false_iff_not,
        not_lt, gt_iff_lt] at hfilter
      exact hfilter
  unfold request_hello at h
  split at h
  · cases h
  · rename_i offer ho
    split at h
    · cases h
      exact hrange ho
    · cases h

/-! ## What it is answered with -/

/-- The values of a configuration fit the types of its fields. -/
structure SerialConfiguration.Typed (c : SerialConfiguration) : Prop where
  baud : c.baud < 2 ^ 32
  actual_baud : c.actual_baud < 2 ^ 32
  data_bits : c.data_bits < 2 ^ 8
  stop_bits : c.stop_bits < 2 ^ 8

/-- The numbers of a target fit the types of its fields. -/
structure UploadTarget.Typed (t : UploadTarget) : Prop where
  id : t.id < 2 ^ 32
  max_size : t.max_size < 2 ^ 32

namespace Ctx

variable {β υ : Type} [StreamBackend β] [UploadService υ]

/-- The number of characters of the description. -/
def description_size (c : Ctx β υ) (limit : ℕ) : ℕ :=
  let owned : Bool := c.channel.owner ≠ 0
  let targets := if c.session.has_upload then target_size (UploadService.target υ) else 2
  match StreamBackend.kind c.channel.backend with
  | .uart =>
    hello_uart_size c.session.identity limit owned
      ((StreamBackend.configuration c.channel.backend).getD {}) targets
  | .application => hello_application_size c.session.identity limit owned targets

/-- A session that has not negotiated, at the dispatch of a valid hello. The identity
and the target are what the constructor admitted. -/
structure Greeting (c : Ctx β υ) (r : Request) : Prop extends Asked c r where
  hello : r.command = .hello
  fresh : c.session.negotiated = false
  identity : Session.identity_ok c.session.identity = true
  target : c.session.has_upload = true →
    Session.target_ok (UploadService.target υ) = true ∧ (UploadService.target υ).Typed
  configuration : StreamBackend.kind c.channel.backend = .uart →
    ∃ configuration, StreamBackend.configuration c.channel.backend = some configuration ∧
      configuration.Typed

/-- The session with the limit of an offer in force. -/
def agreed (c : Ctx β υ) (offer : ℕ) : Ctx β υ :=
  { c with session := { c.session with
      decoder := { limit := min max_payload offer }
      negotiated := true } }

/-- The hello result: the session goes on, under the negotiated limit, and what it
sends is the description, which fits. -/
structure Described (c c' : Ctx β υ) (offer : ℕ) : Prop where
  running : c'.session.result = .running
  negotiated : c'.session.negotiated = true
  limit : c'.limit = min max_payload offer
  reply : ∃ body, (c.agreed offer).description = some body ∧ body.length ≤ c'.limit ∧
    c'.session.output = wire ⟨.response, c.session.decoder.request, body⟩

omit [StreamBackend β] in
theorem targets_length (c : Ctx β υ) :
    c.targets.length = if c.session.has_upload then target_size (UploadService.target υ) else 2 := by
  unfold targets
  split
  · exact targets_body_length _
  · decide +kernel

variable {c : Ctx β υ}

/-- The size that is computed for a description is its length. -/
theorem description_length {body : List Byte} (h : c.description = some body) :
    body.length = c.description_size c.limit := by
  unfold description at h
  unfold description_size
  rw [← targets_length]
  cases hkind : StreamBackend.kind c.channel.backend with
  | uart =>
    simp only [hkind, Option.map_eq_some_iff] at h
    obtain ⟨configuration, hc, rfl⟩ := h
    simp only [hc, Option.getD_some]
    exact hello_uart_body_length _ _ _ _ _
  | application =>
    simp only [hkind, Option.some.injEq] at h
    subst h
    exact hello_application_body_length _ _ _ _

/-- What the constructor admits bounds the identity. -/
theorem identity_size_le {i : Identity} (h : Session.identity_ok i = true) : identity_size i ≤ 96 := by
  simp only [Session.identity_ok, Session.hex_id, Session.name, Bool.and_eq_true, decide_eq_true_eq] at h
  unfold identity_size
  omega

/-- The most that an upload target prints. -/
theorem target_size_le {t : UploadTarget} (h : Session.target_ok t = true) (ht : t.Typed) :
    target_size t ≤ 153 := by
  simp only [Session.target_ok, Session.name, Bool.and_eq_true, decide_eq_true_eq] at h
  have hmax : t.max_chunk ≤ 4088 := h.2
  have hid : digits t.id ≤ 10 := digits_le (by decide) (by have := ht.id; omega)
  have hsize : digits t.max_size ≤ 10 := digits_le (by decide) (by have := ht.max_size; omega)
  have hchunk : digits t.max_chunk ≤ 4 := digits_le (by decide) (by omega)
  unfold target_size
  omega

theorem Greeting.targets_le (h : Greeting c r) :
    (if c.session.has_upload then target_size (UploadService.target υ) else 2) ≤ 153 := by
  split
  · rename_i hupload
    exact target_size_le (h.target hupload).1 (h.target hupload).2
  · decide

/-- With values of the declared types the description always fits the buffer. -/
theorem Greeting.description_size_le (h : Greeting c r) {limit : ℕ}
    (hlimit : limit ≤ max_payload) : c.description_size limit ≤ Session.response_capacity := by
  have hidentity := identity_size_le h.identity
  have hdigits : digits limit ≤ 4 := digits_le (by decide) (lt_of_le_of_lt hlimit (by decide))
  have howned : ∀ b, bool_size b ≤ 5 := by decide
  have htargets := h.targets_le
  unfold description_size
  cases hkind : StreamBackend.kind c.channel.backend with
  | uart =>
    obtain ⟨configuration, hc, ht⟩ := h.configuration hkind
    simp only [hc, Option.getD_some, hello_uart_size, Session.response_capacity]
    have hbaud : digits configuration.baud ≤ 10 := digits_le (by decide) (by have := ht.baud; omega)
    have hactual : digits configuration.actual_baud ≤ 10 :=
      digits_le (by decide) (by have := ht.actual_baud; omega)
    have hdata : digits configuration.data_bits ≤ 3 :=
      digits_le (by decide) (by have := ht.data_bits; omega)
    have hstop : digits configuration.stop_bits ≤ 3 :=
      digits_le (by decide) (by have := ht.stop_bits; omega)
    have hparity : parity_size configuration.parity ≤ 4 := by
      cases configuration.parity <;> decide
    have := howned (decide (c.channel.owner ≠ 0))
    omega
  | application =>
    simp only [hello_application_size, Session.response_capacity]
    have := howned (decide (c.channel.owner ≠ 0))
    omega

theorem Greeting.description_eq (h : Greeting c r) (offer : ℕ) :
    ∃ body, (c.agreed offer).description = some body := by
  unfold description
  rw [show (c.agreed offer).channel = c.channel from rfl]
  cases hkind : StreamBackend.kind c.channel.backend with
  | uart =>
    obtain ⟨configuration, hc, -⟩ := h.configuration hkind
    simp only [hc, Option.map_some]
    exact ⟨_, rfl⟩
  | application => exact ⟨_, rfl⟩

theorem Greeting.offer (h : Greeting c r) : min_offer ≤ r.offer ∧ r.offer ≤ 65536 := by
  obtain ⟨d, -, hrequest⟩ := Option.bind_eq_some_iff.mp h.valid
  exact request_hello_offer ((request_command hrequest).2 h.hello) rfl

/-- It puts the limit in force, and then answers with the description. -/
theorem Greeting.dispatch_hello_eq (h : Greeting c r) {body : List Byte}
    (hbody : (c.agreed r.offer).description = some body) :
    c.dispatch_hello r = ((c.agreed r.offer).reply c.session.decoder.request body).conclude := by
  obtain ⟨hge, hle⟩ := h.offer
  have hnegotiate : c.session.decoder.reset.negotiate r.offer
      = some { limit := min max_payload r.offer } := by
    unfold Decoder.negotiate
    rw [if_neg]
    · rfl
    · simp [Decoder.started, hge, hle]
  have hfields : ¬ (c.agreed r.offer).targets.length ≥ Session.fields_capacity := by
    rw [targets_length, show (c.agreed r.offer).session.has_upload = c.session.has_upload from rfl]
    have := h.targets_le
    simp only [Session.fields_capacity]
    omega
  have hdescribe : c.dispatch_hello r = (c.agreed r.offer).describe c.session.decoder.request := by
    unfold dispatch_hello
    simp only [h.fresh, hnegotiate, Bool.false_eq_true, if_false]
    rfl
  rw [hdescribe, describe, if_neg hfields, hbody]

/-- The whole dispatch of a valid hello. -/
theorem Greeting.answer (h : Greeting c r) (now : UInt32) (memory : Option MemorySamples) :
    ∃ body, (c.agreed r.offer).description = some body ∧
      body.length = c.description_size (min max_payload r.offer) ∧
      body.length ≤ Session.response_capacity ∧
      c.dispatch now memory
        = ((c.agreed r.offer).reply c.session.decoder.request body).conclude := by
  obtain ⟨body, hbody⟩ := h.description_eq r.offer
  have hlength : body.length = c.description_size (min max_payload r.offer) :=
    description_length hbody
  refine ⟨body, hbody, hlength, ?_, ?_⟩
  · rw [hlength]
    exact h.description_size_le (min_le_left _ _)
  · rw [h.dispatch_eq, dispatch_command, h.hello]
    exact h.dispatch_hello_eq hbody

/-- A description that does not fit: an error, from a session that counts as
negotiated and so refuses to be asked again. -/
theorem hello_too_large (h : Greeting c r) (now : UInt32) (memory : Option MemorySamples)
    (hlarge : min max_payload r.offer < c.description_size (min max_payload r.offer)) :
    (c.dispatch now memory).session.negotiated = true ∧
      (c.dispatch now memory).session.output
        = wire ⟨.response, c.session.decoder.request, error_body "response_too_large"⟩ := by
  obtain ⟨body, -, hlength, hbuffer, hdispatch⟩ := h.answer now memory
  have hmin : min_offer ≤ (c.agreed r.offer).limit := le_min (by decide) h.offer.1
  rw [← hlength] at hlarge
  rw [hdispatch,
    reply_too_large (c := c.agreed r.offer) h.idle h.request_ne_zero hmin hlarge hbuffer]
  exact ⟨rfl, rfl⟩

/-- **The hello result.** A valid hello gets the description exactly when the
description is no longer than the limit it negotiates. -/
theorem hello_described {c : Ctx β υ} {r : Request} (h : Greeting c r) (now : UInt32)
    (memory : Option MemorySamples) :
    Described c (c.dispatch now memory) r.offer ↔
      c.description_size (min max_payload r.offer) ≤ min max_payload r.offer := by
  obtain ⟨body, hbody, hlength, hbuffer, hdispatch⟩ := h.answer now memory
  constructor
  · intro hd
    obtain ⟨body', hbody', hfit, -⟩ := hd.reply
    rw [hbody, Option.some.injEq] at hbody'
    rw [← hlength, hbody', ← hd.limit]
    exact hfit
  · intro hfit
    rw [← hlength] at hfit
    rw [hdispatch, reply_fits (c := c.agreed r.offer) h.idle h.request_ne_zero hfit hbuffer]
    exact ⟨h.running, rfl, rfl, body, hbody, hfit, rfl⟩

/-- A new session on an application backend that has just received a hello. -/
def greeted : Ctx Loopback NoUpload where
  session := { Session.construct System.sample_identity 1 0 none with
    decoder := (({} : Decoder).feed (header .request 1 14)).feed (ascii "\x7b\"op\":\"hello\"\x7d") }
  channel := { backend := {} }
  upload := {}

theorem greeted_greeting : Greeting greeted { command := .hello } where
  running := by decide +kernel
  idle := rfl
  wf := (Decoder.wf_initial.feed _).feed _
  ready := by decide +kernel
  type := by decide +kernel
  valid := by decide +kernel
  known := by decide
  admitted := .inr rfl
  hello := rfl
  fresh := rfl
  identity := by decide +kernel
  target h := by cases h
  configuration h := by cases h

theorem hello_described_greeted : Described greeted (greeted.dispatch 0 none) max_payload :=
  (hello_described greeted_greeting 0 none).mpr (by decide +kernel)

end Ctx

/-! ## A hello that is not described -/

/-- A line with nothing on it, which takes every configuration. -/
structure QuietLine where
  active : Bool := false

instance : UartDriver QuietLine where
  configure _ value := ((true, value.baud), ⟨true⟩)
  active := QuietLine.active
  tx_idle _ := true
  rx_capacity _ := 512
  rx_reserve _ := 64
  rx_pending d := (0, d)
  read d _ := ([], d)
  write d data := (data.length, d)
  take_rx_overrun d := (false, d)

/-- The line at 115200 8N1, as the board's setup configures it. -/
def configured_line : UartBackend QuietLine :=
  (UartBackend.configure { driver := {} } ⟨115200, 0, 8, 1, .none⟩).2

/-- A board's identity and a hello with the smallest offer. -/
def small_hello_run : List (Op (UartBackend QuietLine) NoUpload) :=
  .construct 1 0 ⟨ascii "a1b2c3d4e5f60718", ascii "0123456789abcdef", ascii "nano_rp2040_connect",
      ascii "session-dev-v1"⟩ false ::
    System.deliver 1 ⟨.request, 1, ascii "\x7b\"op\":\"hello\",\"max_payload\":512\x7d"⟩

/-- The smallest offer over a UART: the limit and the negotiation are in force, and
what the session sends is an error. -/
theorem hello_not_described :
    ((System.after configured_line {} small_hello_run).sessions 1).map
        (fun s => (s.result, s.negotiated, s.decoder.limit, s.output))
      = some (.running, true, 512, wire ⟨.response, 1, error_body "response_too_large"⟩) := by
  decide +kernel

end Firmingo
