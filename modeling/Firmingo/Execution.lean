/-
What the frame in the decoder orders, and that its dispatch does just that.

The errand of a frame is read off the frame, and made by `perform`. This file says what is left
of the dispatch once the errand is made: one response under the identifier of the frame, or the
end of the session. So a dispatch makes the one call that its frame names, once, if it is let
through, and no call if it is not.
-/
import Firmingo.Turns

set_option autoImplicit false

open Octets

namespace Firmingo

open Protocol Machine

variable {β υ : Type} [StreamBackend β] [UploadService υ]

/-- What the upload service says to an errand that is for it. -/
def Errand.answer (u : υ) (t : UInt32) : Errand → Option UploadAnswer
  | .service call => some (call.run u t).1
  | .status id => some (UploadService.status u id)
  | _ => none

namespace Ctx

/-! ## What follows the errand -/

/-- From the state after the errand to the end of the dispatch: nothing is called any more,
but for what the end of a session releases. -/
inductive Concluded (id : ℕ) (answer : Option UploadAnswer) (c c' : Ctx β υ) : Prop
  /-- One response, which tells what the upload service said if it was asked. -/
  | replied (payload : List Byte) (running : c'.session.result = .running)
      (upload : c'.upload = c.upload)
      (channel : c'.channel
        = c.channel.record (.queued c.session.owner ⟨.response, id, payload⟩ c.limit))
      (output : c'.session.output = wire ⟨.response, id, payload⟩)
      (owned : c'.session.owned = c.session.owned)
      (negotiated : c'.session.negotiated = c.session.negotiated) (limit : c'.limit = c.limit)
      (told : ∀ a ∈ answer, payload = upload_reply c.limit a)
  /-- One response, to a text that is no JSON: the session only lives to send it. -/
  | dismissed (payload : List Byte) (closing : c'.session.closing = true)
      (malformed : Json.Document.parse c.session.decoder.payload = none)
      (upload : c'.upload = c.let_go.upload)
      (channel : c'.channel = (c.record
        (.queued c.session.owner ⟨.response, id, payload⟩ c.limit)).let_go.channel)
      (output : c'.session.output = wire ⟨.response, id, payload⟩)
  /-- The end. -/
  | ended (terminal : c'.session.result ≠ .running) (upload : c'.upload = c.let_go.upload)
      (channel : c'.channel = c.let_go.channel)

/-- **The dispatch does what its frame orders, once.** -/
def Performed (c : Ctx β υ) (now : UInt32) (memory : Option MemorySamples) (c' : Ctx β υ) : Prop :=
  Concluded c.session.decoder.request
    ((c.errand memory).bind (Errand.answer c.upload c.session.owner))
    (c.perform now (c.errand memory)) c'

variable {id : ℕ} {answer : Option UploadAnswer} {c c' : Ctx β υ}

/-- The reply to an errand of the upload service tells what the service said. -/
theorem Follows.told {now : UInt32} {e : Option Errand} {turn : Bool} {reply : Reply}
    (h : Follows c now e (.replied turn reply)) :
    ∀ a ∈ e.bind (Errand.answer c.upload c.session.owner), reply = .upload a := by
  cases h with
  | called | asked =>
    rintro _ ⟨⟩
    rfl
  | refused | unfit | counted | described | reported | acquired | denied | configured
    | misconfigured | released => rintro _ ⟨⟩

end Ctx

end Firmingo
