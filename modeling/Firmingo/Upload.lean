/-
The upload interface: `src/core/upload.h` and `src/core/upload.cpp`.

`UploadService` is the source's abstract class, as a class of state types. Every
call answers an `UploadError`, the status it wrote to its out parameter, and the
state it leaves. The target is fixed for the life of a service, as it is in both
implementations.
-/
import Firmingo.Octets

set_option autoImplicit false

open Octets

namespace Firmingo

/-- `UploadError`. -/
inductive UploadError
  | none
  | unsupported
  | invalid_argument
  | wrong_target
  | invalid_state
  | busy
  | unauthorized
  | wrong_owner
  | wrong_offset
  | incomplete
  | digest_mismatch
  | invalid_image
  | insufficient_storage
  | io_error
  | disconnected
  | park_timeout
  | install_failed
  deriving DecidableEq, Repr

/-- `UploadState`. -/
inductive UploadState
  | accepted
  | verified
  | committing
  | installed
  | boot_confirmed
  | aborted
  | failed
  deriving DecidableEq, Repr

/-- `upload_error_name`. -/
def upload_error_name : UploadError → String
  | .none => "none"
  | .unsupported => "unsupported"
  | .invalid_argument => "invalid_argument"
  | .wrong_target => "wrong_target"
  | .invalid_state => "invalid_state"
  | .busy => "busy"
  | .unauthorized => "unauthorized"
  | .wrong_owner => "wrong_owner"
  | .wrong_offset => "wrong_offset"
  | .incomplete => "incomplete"
  | .digest_mismatch => "digest_mismatch"
  | .invalid_image => "invalid_image"
  | .insufficient_storage => "insufficient_storage"
  | .io_error => "io_error"
  | .disconnected => "disconnected"
  | .park_timeout => "park_timeout"
  | .install_failed => "install_failed"

/-- `upload_state_name`. -/
def upload_state_name : UploadState → String
  | .accepted => "accepted"
  | .verified => "verified"
  | .committing => "committing"
  | .installed => "installed"
  | .boot_confirmed => "boot_confirmed"
  | .aborted => "aborted"
  | .failed => "failed"

/-- `UploadTarget`; the two texts are pointers in the source and may be null. -/
structure UploadTarget where
  id : ℕ
  format : Option (List Byte)
  max_size : ℕ
  max_chunk : ℕ
  authorization : Option (List Byte)
  deriving DecidableEq, Repr

/-- `UploadStatus`. -/
structure UploadStatus where
  id : ℕ := 0
  size : ℕ := 0
  received : ℕ := 0
  digest : List Byte := List.replicate 32 0
  state : UploadState := .aborted
  error : UploadError := .none
  slot_touched : Bool := false
  deriving DecidableEq, Repr

/-- What a call of the service answers. -/
structure UploadAnswer where
  error : UploadError
  status : UploadStatus := {}
  deriving DecidableEq, Repr

/-- `UploadService`. -/
class UploadService (υ : Type) where
  target : UploadTarget
  begin : υ → UInt32 → ℕ → List Byte → UploadAnswer × υ
  chunk : υ → UInt32 → ℕ → ℕ → List Byte → UploadAnswer × υ
  finish : υ → UInt32 → ℕ → UploadAnswer × υ
  commit : υ → UInt32 → ℕ → UploadAnswer × υ
  abort : υ → UInt32 → ℕ → UploadAnswer × υ
  status : υ → ℕ → UploadAnswer
  disconnect : υ → UInt32 → υ
  blocks_console : υ → Bool

/-- A device without the service: the sessions' pointer is null, and nothing here is
ever called. -/
structure NoUpload where
  deriving DecidableEq, Repr

instance : UploadService NoUpload where
  target := ⟨0, none, 0, 0, none⟩
  begin u _ _ _ := ({ error := .unsupported }, u)
  chunk u _ _ _ _ := ({ error := .unsupported }, u)
  finish u _ _ := ({ error := .unsupported }, u)
  commit u _ _ := ({ error := .unsupported }, u)
  abort u _ _ := ({ error := .unsupported }, u)
  status _ _ := { error := .unsupported }
  disconnect u _ := u
  blocks_console _ := false

end Firmingo
