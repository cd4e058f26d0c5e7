/-
From a frame to a command.

A request frame passes the JSON parser, the upload methods and the request schema
before it reaches the command it names. This file says when it does: `Asked` is a
session at the dispatch of a frame that passes all of them.
-/
import Firmingo.Refine

set_option autoImplicit false

open Octets

namespace Firmingo

open Protocol

/-! ## What the schema keeps -/

variable {d : Json.Document}

/-- Reading a configuration or a channel keeps the command. -/
theorem serial_configuration_command {object : ℕ} {r r' : Request}
    (h : serial_configuration d object r = some r') : r'.command = r.command := by
  unfold serial_configuration at h
  split at h
  · cases h
  · simp only [Option.bind_eq_bind, Option.bind_eq_some_iff, Option.pure_def, Option.some.injEq] at h
    obtain ⟨_, -, _, -, _, -, _, -, _, -, _, -, rfl⟩ := h
    rfl

/-- Reading the channel leaves the command alone. -/
theorem request_channel_command {r r' : Request}
    (h : request_channel d r = some r') : r'.command = r.command := by
  unfold request_channel at h
  rw [Option.bind_eq_bind, Option.bind_eq_some_iff] at h
  obtain ⟨channel, -, h⟩ := h
  split at h
  · cases h
  rw [Option.bind_eq_bind, Option.bind_eq_some_iff] at h
  obtain ⟨configured, hconfigured, h⟩ := h
  have hsame : configured.command = r.command := by
    unfold optional_member at hconfigured
    split at hconfigured
    · cases hconfigured
      rfl
    · rw [serial_configuration_command hconfigured]
  split at h
  · cases h
  split at h
  · rw [Option.map_eq_some_iff] at h
    obtain ⟨_, -, rfl⟩ := h
    exact hsame
  · cases h
    exact hsame

theorem request_hello_command {r r' : Request} (h : request_hello d r = some r') :
    r'.command = r.command := by
  unfold request_hello at h
  split at h
  · cases h
  · split at h
    · cases h
      rfl
    · cases h

/-- A request has the command its operation names; a hello has passed the hello half
of the schema. -/
theorem request_command {r : Request} (h : request d = some r) :
    (∃ operation, (d.find "op").bind (d.string · 33) = some operation ∧
      r.command = command_of_name operation) ∧
    (r.command = .hello → request_hello d { command := .hello } = some r) := by
  unfold request at h
  split at h
  · cases h
  rw [Option.bind_eq_bind, Option.bind_eq_some_iff] at h
  obtain ⟨operation, hop, h⟩ := h
  split at h
  · cases h
  dsimp only at h
  split at h
  · rename_i hunknown
    cases h
    refine ⟨⟨operation, hop, rfl⟩, fun hr => ?_⟩
    rw [hunknown] at hr
    cases hr
  rw [Option.bind_eq_bind, Option.bind_eq_some_iff] at h
  obtain ⟨present, -, h⟩ := h
  split at h
  · cases h
  split at h
  · rename_i hcommand
    rw [hcommand] at h
    exact ⟨⟨operation, hop, by rw [request_hello_command h, hcommand]⟩, fun _ => h⟩
  · rename_i hcommand
    cases h
    refine ⟨⟨operation, hop, rfl⟩, fun hr => ?_⟩
    rw [hcommand] at hr
    cases hr
  · rename_i hcommand
    rw [Option.bind_eq_some_iff] at h
    obtain ⟨_, -, h⟩ := h
    split at h
    · cases h
      refine ⟨⟨operation, hop, rfl⟩, fun hr => ?_⟩
      rw [hcommand] at hr
      cases hr
    · cases h
  · rename_i hne _ _
    have hsame := request_channel_command h
    exact ⟨⟨operation, hop, hsame⟩, fun hr => absurd (hsame.symm.trans hr) hne⟩

/-- No upload method is the operation of a command. -/
theorem upload_method_eq_none {r : Request} (h : request d = some r)
    (hknown : r.command ≠ .unknown) : upload_method d = none := by
  obtain ⟨⟨operation, hop, hcommand⟩, -⟩ := request_command h
  have hfind : upload_methods.find? (fun m => ascii m.1 == operation) = none := by
    rw [List.find?_eq_none]
    intro m hm heq
    have hother : ∀ m ∈ upload_methods, command_of_name (ascii m.1) = .unknown := by decide +kernel
    rw [hcommand, ← eq_of_beq heq] at hknown
    exact hknown (hother m hm)
  unfold upload_method
  rw [hop, Option.bind_eq_bind, Option.bind_some, hfind]
  rfl

namespace Ctx

variable {β υ : Type} [StreamBackend β] [UploadService υ]

/-! ## A valid request -/

/-- A running session with nothing to send, at the dispatch of a request frame that
passes the schema with a known command, at a time when the command is admitted. -/
structure Asked (c : Ctx β υ) (r : Request) : Prop where
  running : c.session.result = .running
  idle : c.session.output = []
  wf : c.session.decoder.Wf
  ready : c.session.decoder.state = .ready
  type : c.session.decoder.type = .request
  valid : (Json.Document.parse c.session.decoder.payload).bind request = some r
  known : r.command ≠ .unknown
  admitted : c.session.negotiated = true ∨ r.command = .hello

variable {c : Ctx β υ} {r : Request}

/-- Such a frame reaches its command. -/
theorem Asked.dispatch_eq (h : Asked c r) (now : UInt32) (memory : Option MemorySamples) :
    c.dispatch now memory = c.dispatch_command now memory r := by
  obtain ⟨d, hparse, hrequest⟩ := Option.bind_eq_some_iff.mp h.valid
  have hmethod : (if c.session.has_upload then upload_method d else none) = none := by
    rw [upload_method_eq_none hrequest h.known, ite_self]
  have hgate : ¬ (!c.session.negotiated && decide (r.command ≠ .hello)) = true := by
    rcases h.admitted with hn | hr
    · simp [hn]
    · simp [hr]
  have hstep : c.dispatch now memory = c.dispatch_request now memory := by
    unfold dispatch
    rw [h.type]
  rw [hstep]
  unfold dispatch_request
  simp only [hparse, hmethod, hrequest]
  rw [if_neg hgate]

omit [StreamBackend β] [UploadService υ] in
theorem Asked.request_ne_zero (h : Asked c r) : c.session.decoder.request ≠ 0 :=
  h.wf.request_ne_zero h.ready (by rw [h.type]; decide) (by rw [h.type]; decide)

end Ctx

end Firmingo
