/-
The byte pump: `src/core/stream.h` and `src/core/stream.cpp`.

`StreamBackend` is the source's abstract class, as a class of state types: a
backend is whatever state it keeps together with what each call answers and
leaves behind, so a theorem over every instance is a theorem over every backend
behaviour. A read returns the bytes it claims to have stored; a count that is too
large is a list that is too long.

`Stream` moves bytes between a peer and a backend through two bounded buffers.
Both ends may reach back into the object that owns the stream (a `Session` is
the peer of the stream inside its own channel), so `pump` and `poll` run on the
whole state `σ` and reach their stream through a getter and a setter.
-/
import Firmingo.Octets

set_option autoImplicit false

open Octets

namespace Firmingo

/-! ## Backends -/

/-- `BackendDiagnostics`. -/
structure BackendDiagnostics where
  rx_pending : ℕ := 0
  tx_pending : ℕ := 0
  rx_peak : ℕ := 0
  tx_peak : ℕ := 0
  rx_discarded : ℕ := 0
  tx_discarded : ℕ := 0
  rx_overrun_events : ℕ := 0
  rx_lost_bytes_minimum : ℕ := 0
  tx_throttle_events : ℕ := 0
  has_sketch_console : Bool := false
  sketch_input_discarded : ℕ := 0
  sketch_output_discarded : ℕ := 0
  sketch_output_rejected : ℕ := 0
  sketch_output_peak : ℕ := 0
  sketch_loop_boundaries : ℕ := 0
  sketch_epoch : ℕ := 0
  sketch_acknowledged_epoch : ℕ := 0
  sketch_input_enabled : Bool := false
  sketch_output_enabled : Bool := false
  deriving DecidableEq, Repr

/-- `BackendKind`. -/
inductive BackendKind
  | application
  | uart
  deriving DecidableEq, Repr

/-- `SerialParity`. -/
inductive SerialParity
  | none
  | even
  | odd
  deriving DecidableEq, Repr

/-- `SerialConfiguration`: the rates are 32-bit, the bit counts 8-bit. -/
structure SerialConfiguration where
  baud : ℕ := 0
  actual_baud : ℕ := 0
  data_bits : ℕ := 0
  stop_bits : ℕ := 0
  parity : SerialParity := .none
  deriving DecidableEq, Repr

/-- `BackendResult`. -/
inductive BackendResult
  | ok
  | unsupported
  | invalid_argument
  | busy
  | io_error
  deriving DecidableEq, Repr

/-- `StreamBackend`, with the defaults of the source for the calls that have one.
`diagnostics` returns the state too: the source marks it `const` but lets it
update counters. -/
class StreamBackend (β : Type) where
  connected : β → Bool
  read : β → ℕ → List Byte × β
  write : β → List Byte → ℕ × β
  discard : β → β
  kind : β → BackendKind := fun _ => .application
  prepare_open : β → BackendResult × β := fun b => (if connected b then .ok else .io_error, b)
  configuration : β → Option SerialConfiguration := fun _ => none
  configure : β → SerialConfiguration → BackendResult × β := fun b _ => (.unsupported, b)
  opened : β → UInt32 → β := fun b _ => b
  closed : β → β := id
  diagnostics : β → Option BackendDiagnostics × β := fun b => (none, b)

/-! ## The stream -/

/-- `StreamResult`. -/
inductive StreamResult
  | ok
  | busy
  | invalid_owner
  | disconnected
  | timeout
  | io_error
  | unsupported
  | invalid_argument
  deriving DecidableEq, Repr

/-- One end of a stream, by what its calls do to the state `σ` around the stream. -/
structure ByteIO (σ : Type) where
  connected : σ → Bool
  read : σ → ℕ → List Byte × σ
  write : σ → List Byte → ℕ × σ

/-- `Stream::capacity`, for each direction. -/
def Stream.capacity : ℕ := 256

/-- `Stream::Pending`; `bytes` is the source's `bytes[offset .. offset + size)`. -/
structure Stream.Pending where
  bytes : List Byte := []
  peak : ℕ := 0
  deriving DecidableEq, Repr

/-- `Stream`. -/
structure Stream where
  to_backend : Stream.Pending := {}
  to_peer : Stream.Pending := {}
  owner : UInt32 := 0
  last_progress : UInt32 := 0
  idle_timeout_ms : UInt32 := 30000
  deriving DecidableEq, Repr

namespace Stream

/-- `Stream::clear`: the peaks survive. -/
def clear (s : Stream) : Stream :=
  { s with
    to_backend := { s.to_backend with bytes := [] }
    to_peer := { s.to_peer with bytes := [] }
    owner := 0 }

/-- `Stream::open`. -/
def open_for (s : Stream) (owner now : UInt32) : StreamResult × Stream :=
  if owner = 0 then (.invalid_owner, s)
  else if s.owner ≠ 0 then (.busy, s)
  else (.ok, { s.clear with owner := owner, last_progress := now })

/-- `Stream::close`. -/
def close (s : Stream) (owner : UInt32) : StreamResult × Stream :=
  if owner = 0 || owner ≠ s.owner then (.invalid_owner, s) else (.ok, s.clear)

def pending_to_backend (s : Stream) : ℕ := s.to_backend.bytes.length
def pending_to_peer (s : Stream) : ℕ := s.to_peer.bytes.length
def peak_to_backend (s : Stream) : ℕ := s.to_backend.peak
def peak_to_peer (s : Stream) : ℕ := s.to_peer.peak

/-! ### Pumping one direction -/

section Pump

variable {σ : Type}

/-- What a pump leaves: the state, whether every count was in bounds, and the
source's `progress` flag. -/
structure Pumped (σ : Type) where
  state : σ
  ok : Bool
  progress : Bool

/-- The read half of `Stream::pump`: only into an empty buffer, so nothing is read
past a stalled destination. -/
def fill (source : ByteIO σ) (get : σ → Pending) (put : σ → Pending → σ) (progress : Bool)
    (s : σ) : Pumped σ :=
  if (get s).bytes = [] then
    let (received, s) := source.read s capacity
    if received.length > capacity then ⟨s, false, progress⟩
    else
      let peak := if received.length > (get s).peak then received.length else (get s).peak
      ⟨put s ⟨received, peak⟩, true, progress || received.length != 0⟩
  else ⟨s, true, progress⟩

/-- The write half of `Stream::pump`. -/
def drain (destination : ByteIO σ) (get : σ → Pending) (put : σ → Pending → σ) (progress : Bool)
    (s : σ) : Pumped σ :=
  if (get s).bytes ≠ [] then
    let (sent, s) := destination.write s (get s).bytes
    if sent > (get s).bytes.length then ⟨s, false, progress⟩
    else ⟨put s { get s with bytes := (get s).bytes.drop sent }, true, progress || sent != 0⟩
  else ⟨s, true, progress⟩

/-- `Stream::pump`: at most one read and one write. -/
def pump (source destination : ByteIO σ) (get : σ → Pending) (put : σ → Pending → σ)
    (progress : Bool) (s : σ) : Pumped σ :=
  let filled := fill source get put progress s
  if filled.ok then drain destination get put filled.progress filled.state else filled

/-- `Stream::poll`. -/
def poll (get : σ → Stream) (put : σ → Stream → σ) (owner : UInt32) (peer backend : ByteIO σ)
    (now : UInt32) (s : σ) : StreamResult × σ :=
  if owner = 0 || owner ≠ (get s).owner then (.invalid_owner, s)
  else if !peer.connected s || !backend.connected s then (.disconnected, put s (get s).clear)
  else if (get s).idle_timeout_ms ≠ 0 && now - (get s).last_progress ≥ (get s).idle_timeout_ms then
    (.timeout, put s (get s).clear)
  else
    let inward := pump peer backend (fun s => (get s).to_backend)
      (fun s p => put s { get s with to_backend := p }) false s
    let outward :=
      if inward.ok then
        pump backend peer (fun s => (get s).to_peer)
          (fun s p => put s { get s with to_peer := p }) inward.progress inward.state
      else inward
    if outward.ok then
      (.ok, if outward.progress then put outward.state { get outward.state with last_progress := now }
        else outward.state)
    else (.io_error, put outward.state (get outward.state).clear)

end Pump

/-! ### Small facts -/

@[simp] theorem clear_owner (s : Stream) : s.clear.owner = 0 := rfl
@[simp] theorem clear_to_backend (s : Stream) : s.clear.to_backend.bytes = [] := rfl
@[simp] theorem clear_to_peer (s : Stream) : s.clear.to_peer.bytes = [] := rfl

section Pump

variable {σ : Type} {io : ByteIO σ} {get : σ → Pending} {put : σ → Pending → σ} {progress : Bool}
  {s : σ}

theorem fill_of_pending (h : (get s).bytes ≠ []) : fill io get put progress s = ⟨s, true, progress⟩ := by
  simp [fill, h]

theorem fill_of_read (h : (get s).bytes = []) {bytes : List Byte} {s' : σ}
    (hread : io.read s capacity = (bytes, s')) (hlen : bytes.length ≤ capacity) :
    fill io get put progress s = ⟨put s' ⟨bytes, max (get s').peak bytes.length⟩, true,
      progress || bytes.length != 0⟩ := by
  simp only [fill, h, if_true, hread]
  rw [if_neg (by omega)]
  congr 3
  split <;> omega

theorem fill_of_overlong (h : (get s).bytes = []) {bytes : List Byte} {s' : σ}
    (hread : io.read s capacity = (bytes, s')) (hlen : bytes.length > capacity) :
    fill io get put progress s = ⟨s', false, progress⟩ := by
  simp only [fill, h, if_true, hread]
  rw [if_pos hlen]

theorem drain_of_empty (h : (get s).bytes = []) : drain io get put progress s = ⟨s, true, progress⟩ := by
  simp [drain, h]

theorem drain_of_write (h : (get s).bytes ≠ []) {n : ℕ} {s' : σ}
    (hwrite : io.write s (get s).bytes = (n, s')) (hn : n ≤ (get s').bytes.length) :
    drain io get put progress s
      = ⟨put s' { get s' with bytes := (get s').bytes.drop n }, true, progress || n != 0⟩ := by
  simp only [drain, h, ne_eq, not_false_iff, if_true, hwrite]
  rw [if_neg (by omega)]

theorem drain_of_overlong (h : (get s).bytes ≠ []) {n : ℕ} {s' : σ}
    (hwrite : io.write s (get s).bytes = (n, s')) (hn : n > (get s').bytes.length) :
    drain io get put progress s = ⟨s', false, progress⟩ := by
  simp only [drain, h, ne_eq, not_false_iff, if_true, hwrite]
  rw [if_pos hn]

end Pump

end Stream

end Firmingo
