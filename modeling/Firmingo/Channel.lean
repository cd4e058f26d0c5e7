/-
The shared channel: `Channel` of `src/core/session.h` and `src/core/session.cpp`.

A channel owns the stream and its backend, and is shared by every session of a
device. Beside the members of the source it carries `history`, a ghost list of
what happened on the channel and to its sessions, oldest first: no function reads
it, and every statement about "the bytes since the open" or "the calls made on
the backend" is a statement about it.
-/
import Firmingo.Protocol
import Firmingo.Stream
import Firmingo.Runs

set_option autoImplicit false

open Octets

namespace Firmingo

open Protocol

/-- The ghost events. A session is named by its owner token. -/
inductive Event
  /-- A session was constructed. -/
  | created (owner : UInt32)
  /-- The decoder of a session became READY with a frame. -/
  | received (owner : UInt32) (frame : Frame)
  /-- A session queued a frame, under the limit in force. -/
  | queued (owner : UInt32) (frame : Frame) (limit : ℕ)
  /-- The transport of a session accepted bytes. -/
  | sent (owner : UInt32) (bytes : List Byte)
  /-- The channel called `discard`, `opened` or `closed` on its backend, for a session. -/
  | discard (owner : UInt32)
  | opened (owner : UInt32)
  | closed (owner : UInt32)
  /-- The backend returned bytes from a read. -/
  | backend_read (bytes : List Byte)
  /-- The backend accepted bytes of a write. -/
  | backend_write (bytes : List Byte)
  deriving DecidableEq, Repr

/-- `add`: a 64-bit counter that saturates. -/
def add (counter n : ℕ) : ℕ := if n > 2 ^ 64 - 1 - counter then 2 ^ 64 - 1 else counter + n

/-- `Channel`. Its stream never times out: the source constructs it with a zero
idle timeout. -/
structure Channel (β : Type) where
  backend : β
  stream : Stream := { idle_timeout_ms := 0 }
  rx_bytes : ℕ := 0
  tx_bytes : ℕ := 0
  history : List Event := []

/-- `stream_result`. -/
def stream_result : BackendResult → StreamResult
  | .ok => .ok
  | .unsupported => .unsupported
  | .invalid_argument => .invalid_argument
  | .busy => .busy
  | .io_error => .io_error

namespace Channel

variable {β : Type}

def owner (c : Channel β) : UInt32 := c.stream.owner
def pending_rx (c : Channel β) : ℕ := c.stream.pending_to_backend
def pending_tx (c : Channel β) : ℕ := c.stream.pending_to_peer
def peak_rx (c : Channel β) : ℕ := c.stream.peak_to_backend
def peak_tx (c : Channel β) : ℕ := c.stream.peak_to_peer

/-- Append to the ghost history. -/
def record (c : Channel β) (e : Event) : Channel β := { c with history := c.history ++ [e] }

variable [StreamBackend β]

/-- `Channel::read`, the backend end of the stream. -/
def read (c : Channel β) (capacity : ℕ) : List Byte × Channel β :=
  let (bytes, backend) := StreamBackend.read c.backend capacity
  let c := { c with backend := backend }
  if bytes.length ≤ capacity then
    (bytes, { c with tx_bytes := add c.tx_bytes bytes.length }.record (.backend_read bytes))
  else (bytes, c)

/-- `Channel::write`. -/
def write (c : Channel β) (data : List Byte) : ℕ × Channel β :=
  let (n, backend) := StreamBackend.write c.backend data
  let c := { c with backend := backend }
  if n ≤ data.length then
    (n, { c with rx_bytes := add c.rx_bytes n }.record (.backend_write (data.take n)))
  else (n, c)

/-- `backend_.discard()`, `backend_.opened(owner)` and `backend_.closed()`. -/
def call_discard (c : Channel β) (owner : UInt32) : Channel β :=
  { c with backend := StreamBackend.discard c.backend }.record (.discard owner)

def call_opened (c : Channel β) (owner : UInt32) : Channel β :=
  { c with backend := StreamBackend.opened c.backend owner }.record (.opened owner)

def call_closed (c : Channel β) (owner : UInt32) : Channel β :=
  { c with backend := StreamBackend.closed c.backend }.record (.closed owner)

/-- The configuration step of `Channel::acquire`: none is asked for, or the backend
decides. -/
def acquire_configure (c : Channel β) (configuration : Option SerialConfiguration) :
    BackendResult × Channel β :=
  match configuration with
  | none => (.ok, c)
  | some value =>
    let (configured, backend) := StreamBackend.configure c.backend value
    (configured, { c with backend := backend })

/-- `Channel::acquire`. -/
def acquire (c : Channel β) (owner now : UInt32) (configuration : Option SerialConfiguration) :
    StreamResult × Channel β :=
  if c.stream.owner ≠ 0 then (.busy, c)
  else
    let (configured, c) := c.acquire_configure configuration
    if configured ≠ .ok then (stream_result configured, c)
    else
      let (prepared, backend) := StreamBackend.prepare_open c.backend
      let c := { c with backend := backend }
      if prepared ≠ .ok then (stream_result prepared, c)
      else
        let (result, stream) := c.stream.open_for owner now
        let c := { c with stream := stream }
        if result = .ok then
          (result, { (c.call_discard owner).call_opened owner with rx_bytes := 0, tx_bytes := 0 })
        else (result, c)

/-- `Channel::configure`. -/
def configure (c : Channel β) (owner : UInt32) (configuration : SerialConfiguration) :
    BackendResult × Channel β :=
  if owner = 0 || owner ≠ c.stream.owner then (.io_error, c)
  else if c.stream.pending_to_backend ≠ 0 || c.stream.pending_to_peer ≠ 0 then (.busy, c)
  else
    let (result, backend) := StreamBackend.configure c.backend configuration
    (result, { c with backend := backend })

/-- The two calls both `Channel::release` and `Channel::poll` end a tenure with. -/
def retire (c : Channel β) (owner : UInt32) : Channel β := (c.call_closed owner).call_discard owner

/-- `Channel::release`. -/
def release (c : Channel β) (owner : UInt32) : Channel β :=
  let (result, stream) := c.stream.close owner
  if result = .ok then { c with stream := stream }.retire owner else c

end Channel

end Firmingo
