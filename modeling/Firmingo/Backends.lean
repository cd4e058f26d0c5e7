/-
The backends of the repository: `Loopback` (`src/core/loopback.h`),
`ApplicationEndpoint` (`src/core/application.h`) and `UartBackend`
(`src/core/uart.h`, `src/core/uart.cpp`).

A `UartDriver` is code of a board port, so it is a class like `StreamBackend`:
results about `UartBackend` are about every driver.
-/
import Firmingo.Channel

set_option autoImplicit false

open Octets

namespace Firmingo

/-! ## Loopback -/

/-- `Loopback`: one batch, `bytes_[offset_ .. offset_ + size_)`. -/
structure Loopback where
  bytes : List Byte := []
  deriving DecidableEq, Repr

namespace Loopback

def read (l : Loopback) (capacity : ℕ) : List Byte × Loopback :=
  (l.bytes.take capacity, ⟨l.bytes.drop capacity⟩)

def write (l : Loopback) (data : List Byte) : ℕ × Loopback :=
  if l.bytes ≠ [] then (0, l)
  else (min data.length Stream.capacity, ⟨data.take Stream.capacity⟩)

instance : StreamBackend Loopback where
  connected _ := true
  read := read
  write := write
  discard _ := {}

end Loopback

/-! ## The application endpoint -/

/-- `std::memcpy` into a buffer, from an index on. -/
def copy_at (buffer : List Byte) (at_index : ℕ) (data : List Byte) : List Byte :=
  buffer.take at_index ++ data ++ buffer.drop (at_index + data.length)

/-- `ApplicationEndpoint::capacity`, for each direction. -/
def ApplicationEndpoint.capacity : ℕ := 256

/-- `ApplicationEndpoint::Ring`. -/
structure Ring where
  bytes : List Byte := List.replicate ApplicationEndpoint.capacity 0
  head : ℕ := 0
  size : ℕ := 0
  peak : ℕ := 0
  deriving DecidableEq, Repr

namespace Ring

open ApplicationEndpoint (capacity)

/-- `ApplicationEndpoint::push`: the count and the ring. -/
def push (ring : Ring) (data : List Byte) : ℕ × Ring :=
  let count := min data.length (capacity - ring.size)
  let tail := (ring.head + ring.size) % capacity
  let first := min count (capacity - tail)
  let bytes := if first ≠ 0 then copy_at ring.bytes tail (data.take first) else ring.bytes
  let bytes :=
    if count > first then copy_at bytes 0 ((data.drop first).take (count - first)) else bytes
  let size := ring.size + count
  (count, { ring with bytes := bytes, size := size, peak := if size > ring.peak then size else ring.peak })

/-- `ApplicationEndpoint::pop`: the bytes and the ring. -/
def pop (ring : Ring) (size : ℕ) : List Byte × Ring :=
  let count := min size ring.size
  let first := min count (capacity - ring.head)
  let front := (ring.bytes.drop ring.head).take first
  let back := if count > first then ring.bytes.take (count - first) else []
  let left := ring.size - count
  (front ++ back,
    { ring with head := if left = 0 then 0 else (ring.head + count) % capacity, size := left })

end Ring

/-- `ApplicationEndpoint`. -/
structure ApplicationEndpoint where
  rx : Ring := {}
  tx : Ring := {}
  owner : UInt32 := 0
  generation : ℕ := 0
  discarded_rx : ℕ := 0
  discarded_tx : ℕ := 0
  active : Bool := false
  deriving DecidableEq, Repr

namespace ApplicationEndpoint

/-- `read_from_host` and `write_to_host`: the application's side. -/
def read_from_host (a : ApplicationEndpoint) (size : ℕ) : List Byte × ApplicationEndpoint :=
  if a.active then ((a.rx.pop size).1, { a with rx := (a.rx.pop size).2 }) else ([], a)

def write_to_host (a : ApplicationEndpoint) (data : List Byte) : ℕ × ApplicationEndpoint :=
  if a.active then ((a.tx.push data).1, { a with tx := (a.tx.push data).2 }) else (0, a)

/-- `read` and `write`: the channel's side. -/
def read (a : ApplicationEndpoint) (size : ℕ) : List Byte × ApplicationEndpoint :=
  if a.active then ((a.tx.pop size).1, { a with tx := (a.tx.pop size).2 }) else ([], a)

def write (a : ApplicationEndpoint) (data : List Byte) : ℕ × ApplicationEndpoint :=
  if a.active then ((a.rx.push data).1, { a with rx := (a.rx.push data).2 }) else (0, a)

def discard (a : ApplicationEndpoint) : ApplicationEndpoint :=
  { a with
    discarded_rx := add a.discarded_rx a.rx.size
    discarded_tx := add a.discarded_tx a.tx.size
    rx := { a.rx with head := 0, size := 0 }
    tx := { a.tx with head := 0, size := 0 } }

def opened (a : ApplicationEndpoint) (owner : UInt32) : ApplicationEndpoint :=
  { a with
    active := true
    owner := owner
    generation := if a.generation ≠ 2 ^ 32 - 1 then a.generation + 1 else a.generation }

def closed (a : ApplicationEndpoint) : ApplicationEndpoint := { a with active := false, owner := 0 }

def diagnostics (a : ApplicationEndpoint) : BackendDiagnostics where
  rx_pending := a.rx.size
  tx_pending := a.tx.size
  rx_peak := a.rx.peak
  tx_peak := a.tx.peak
  rx_discarded := a.discarded_rx
  tx_discarded := a.discarded_tx

instance : StreamBackend ApplicationEndpoint where
  connected _ := true
  read := read
  write := write
  discard := discard
  opened := opened
  closed := closed
  diagnostics a := (some a.diagnostics, a)

end ApplicationEndpoint

/-! ## The UART -/

/-- `UartDriver`: what a board port provides. `configure` answers its result and the
actual rate; the calls the source does not mark `const` return the state. -/
class UartDriver (δ : Type) where
  configure : δ → SerialConfiguration → (Bool × ℕ) × δ
  active : δ → Bool
  tx_idle : δ → Bool
  rx_capacity : δ → ℕ
  rx_reserve : δ → ℕ
  rx_pending : δ → ℕ × δ
  read : δ → ℕ → List Byte × δ
  write : δ → List Byte → ℕ × δ
  take_rx_overrun : δ → Bool × δ

/-- `UartBackend`. -/
structure UartBackend (δ : Type) where
  driver : δ
  configuration : SerialConfiguration := {}
  rx_peak : ℕ := 0
  overrun_events : ℕ := 0
  lost_bytes_minimum : ℕ := 0
  tx_throttle_events : ℕ := 0
  discarded_rx : ℕ := 0

namespace UartBackend

def minimum_baud : ℕ := 300
def maximum_baud : ℕ := 2000000

/-- `UartBackend::valid`; every parity of the enumeration is valid. -/
def valid (value : SerialConfiguration) : Bool :=
  value.baud ≥ minimum_baud && value.baud ≤ maximum_baud && value.data_bits ≥ 5
    && value.data_bits ≤ 8 && (value.stop_bits = 1 || value.stop_bits = 2)

variable {δ : Type} [UartDriver δ]

/-- A counter that stops at its maximum. -/
def count_up (max value : ℕ) : ℕ := if value ≠ max then value + 1 else value

/-- `UartBackend::observe`. -/
def observe (u : UartBackend δ) : UartBackend δ :=
  let (pending, driver) := UartDriver.rx_pending u.driver
  let (overrun, driver) := UartDriver.take_rx_overrun driver
  let u := { u with driver := driver, rx_peak := if pending > u.rx_peak then pending else u.rx_peak }
  if overrun then
    { u with
      overrun_events := count_up (2 ^ 32 - 1) u.overrun_events
      lost_bytes_minimum := count_up (2 ^ 64 - 1) u.lost_bytes_minimum }
  else u

/-- `UartBackend::discard`. -/
def discard (u : UartBackend δ) : UartBackend δ :=
  let u := u.observe
  let (bytes, driver) := UartDriver.read u.driver Stream.capacity
  { u with driver := driver, discarded_rx := add u.discarded_rx bytes.length }.observe

/-- `UartBackend::configuration`. -/
def current (u : UartBackend δ) : Option SerialConfiguration :=
  if !UartDriver.active u.driver || u.configuration.baud = 0 then none else some u.configuration

/-- `UartBackend::configure`. -/
def configure (u : UartBackend δ) (value : SerialConfiguration) : BackendResult × UartBackend δ :=
  if !valid value then (.invalid_argument, u)
  else if UartDriver.active u.driver && !UartDriver.tx_idle u.driver then (.busy, u)
  else
    let u := if UartDriver.active u.driver then u.discard else u
    let ((configured, actual), driver) := UartDriver.configure u.driver value
    let u := { u with driver := driver }
    if !configured || !UartDriver.active u.driver || actual = 0 then (.io_error, u)
    else if UartDriver.rx_capacity u.driver = 0
        || UartDriver.rx_reserve u.driver ≥ UartDriver.rx_capacity u.driver then (.io_error, u)
    else (.ok, { u with configuration := { value with actual_baud := actual } }.observe)

/-- `UartBackend::prepare_open`. -/
def prepare_open (u : UartBackend δ) : BackendResult :=
  if !UartDriver.active u.driver then .io_error
  else if UartDriver.tx_idle u.driver then .ok else .busy

/-- `UartBackend::read`. -/
def read (u : UartBackend δ) (capacity : ℕ) : List Byte × UartBackend δ :=
  let u := u.observe
  let (bytes, driver) := UartDriver.read u.driver capacity
  (bytes, { u with driver := driver }.observe)

/-- `UartBackend::write`. -/
def write (u : UartBackend δ) (data : List Byte) : ℕ × UartBackend δ :=
  let u := u.observe
  let (pending, driver) := UartDriver.rx_pending u.driver
  let capacity := UartDriver.rx_capacity driver
  let reserve := UartDriver.rx_reserve driver
  let u := { u with driver := driver }
  if capacity = 0 || reserve ≥ capacity || pending ≥ capacity - reserve then
    (0, { u with tx_throttle_events := count_up (2 ^ 32 - 1) u.tx_throttle_events })
  else
    let (n, driver) := UartDriver.write u.driver (data.take (capacity - reserve - pending))
    (n, { u with driver := driver })

/-- `UartBackend::diagnostics`. -/
def diagnostics (u : UartBackend δ) : BackendDiagnostics × UartBackend δ :=
  let u := u.observe
  let (pending, driver) := UartDriver.rx_pending u.driver
  ({ rx_pending := pending
     rx_peak := max u.rx_peak pending
     rx_discarded := u.discarded_rx
     rx_overrun_events := u.overrun_events
     rx_lost_bytes_minimum := u.lost_bytes_minimum
     tx_throttle_events := u.tx_throttle_events },
   { u with driver := driver })

instance : StreamBackend (UartBackend δ) where
  connected u := UartDriver.active u.driver
  read := read
  write := write
  discard := discard
  kind _ := .uart
  prepare_open u := (u.prepare_open, u)
  configuration := current
  configure := configure
  diagnostics u := (some u.diagnostics.1, u.diagnostics.2)

end UartBackend

end Firmingo
