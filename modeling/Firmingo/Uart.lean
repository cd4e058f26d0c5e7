/-
The UART backend over its driver, call after call.

Two questions about `UartBackend` (`src/core/uart.cpp`) that one call does not answer.

*What is on the wire?* The backend keeps the configuration it last accepted, while the driver
has whatever it was last asked to apply. The history here is the last request that reached the
driver, with the rate it reported; a call keeps the two together or it does not, and which of
the two is decided by the driver's answers. `ArduinoPicoUart` (`ports/arduino_pico/uart.cpp`) is
the driver of the boards.

*Can the backend drown itself?* A driver with a line and an answering peer behind it, whose bytes
move at any time between the calls and between the bytes of one call. The backend only looks at
what was received; the invariant is that what was received and what is in flight fit the FIFO.
-/
import Firmingo.Backends
import Firmingo.Runs

set_option autoImplicit false

open Octets Runs

namespace Firmingo

/-! ## The configuration on the wire -/

/-- The calls of a UART backend. -/
inductive UartCall
  | configure (value : SerialConfiguration)
  | prepare_open
  | read (capacity : ℕ)
  | write (data : List Byte)
  | discard

namespace UartBackend

variable {δ : Type} [UartDriver δ]

/-- A call of the backend; `prepare_open` only asks the driver. -/
def call (u : UartBackend δ) : UartCall → UartBackend δ
  | .configure value => (u.configure value).2
  | .prepare_open => u
  | .read capacity => (u.read capacity).2
  | .write data => (u.write data).2
  | .discard => u.discard

/-- The request reaches the driver. -/
def asks (u : UartBackend δ) (value : SerialConfiguration) : Bool :=
  valid value && !(UartDriver.active u.driver && !UartDriver.tx_idle u.driver)

/-- The backend that asks the driver: an active port is drained first. -/
def drained (u : UartBackend δ) : UartBackend δ := if UartDriver.active u.driver then u.discard else u

/-- What the driver makes of the request. -/
def reply (u : UartBackend δ) (value : SerialConfiguration) : (Bool × ℕ) × δ :=
  UartDriver.configure u.drained.driver value

/-- The driver's reply is taken for a success. -/
def takes (reply : (Bool × ℕ) × δ) : Bool :=
  !(!reply.1.1 || !UartDriver.active reply.2 || reply.1.2 = 0)
    && !(UartDriver.rx_capacity reply.2 = 0 || UartDriver.rx_reserve reply.2 ≥ UartDriver.rx_capacity reply.2)

/-- The request with the rate the driver reported. -/
def at_rate (value : SerialConfiguration) (actual : ℕ) : SerialConfiguration :=
  { value with actual_baud := actual }

end UartBackend

/-- A backend, and the last request its driver was asked to apply. -/
structure WatchedUart (δ : Type) where
  backend : UartBackend δ
  asked : Option SerialConfiguration := none

namespace WatchedUart

open UartBackend

variable {δ : Type} [UartDriver δ]

/-- A call, and what it asks of the driver. -/
def call (w : WatchedUart δ) (c : UartCall) : WatchedUart δ where
  backend := w.backend.call c
  asked := match c with
    | .configure value =>
      if w.backend.asks value then some (at_rate value (w.backend.reply value).1.2) else w.asked
    | _ => w.asked

/-- The backend before its first call. -/
def fresh (driver : δ) : WatchedUart δ := { backend := { driver := driver } }

/-- What is reported is what the driver was last asked to apply. -/
def Described (w : WatchedUart δ) : Prop :=
  ∀ c, w.backend.current = some c → w.asked = some c

/-- The call leaves the report with the driver: a request that reaches the driver is taken, or
leaves the port inactive, or is the first, or changes nothing; and no other call wakes a port
that was left inactive with another request. -/
def Keeps (w : WatchedUart δ) : UartCall → Prop
  | .configure value => w.backend.asks value = true →
      takes (w.backend.reply value) = true ∨ UartDriver.active (w.backend.reply value).2 = false ∨
        w.backend.configuration.baud = 0 ∨
        w.backend.configuration = at_rate value (w.backend.reply value).1.2
  | c => UartDriver.active w.backend.driver = true ∨ UartDriver.active (w.backend.call c).driver = false ∨
      w.backend.configuration.baud = 0 ∨ w.asked = some w.backend.configuration

end WatchedUart

namespace UartBackend

variable {δ : Type} [UartDriver δ] (u : UartBackend δ)

/-- A report is the accepted configuration of an active port. -/
theorem current_eq_some (c : SerialConfiguration) : u.current = some c ↔
    UartDriver.active u.driver = true ∧ u.configuration.baud ≠ 0 ∧ u.configuration = c := by
  unfold current
  by_cases hactive : UartDriver.active u.driver = true
  · by_cases hbaud : u.configuration.baud = 0
    · simp [hactive, hbaud]
    · simp [hactive, hbaud]
  · simp [hactive]

@[simp] theorem observe_configuration : u.observe.configuration = u.configuration := by
  simp only [observe]
  split <;> rfl

@[simp] theorem discard_configuration : u.discard.configuration = u.configuration := by
  simp [discard]

@[simp] theorem drained_configuration : u.drained.configuration = u.configuration := by
  unfold drained
  split <;> simp

@[simp] theorem read_configuration (capacity : ℕ) : (u.read capacity).2.configuration = u.configuration := by
  simp [read]

@[simp] theorem write_configuration (data : List Byte) :
    (u.write data).2.configuration = u.configuration := by
  simp only [write]
  split <;> simp

/-- A request that does not reach the driver changes nothing. -/
theorem configure_unasked {value : SerialConfiguration} (h : u.asks value = false) :
    (u.configure value).2 = u := by
  unfold asks at h
  unfold configure
  by_cases hvalid : valid value = true
  · have hbusy : (UartDriver.active u.driver && !UartDriver.tx_idle u.driver) = true := by
      simpa [hvalid] using h
    rw [if_neg (by simp [hvalid]), if_pos hbusy]
  · rw [if_pos (by simp [hvalid])]

/-- A request that reaches the driver. -/
theorem configure_asked {value : SerialConfiguration} (h : u.asks value = true) :
    (u.configure value).2 =
      if takes (u.reply value) then
        { u.drained with
          driver := (u.reply value).2
          configuration := at_rate value (u.reply value).1.2 }.observe
      else { u.drained with driver := (u.reply value).2 } := by
  simp only [asks, Bool.and_eq_true, Bool.not_eq_true'] at h
  have hrun : u.configure value =
      if !(u.reply value).1.1 || !UartDriver.active (u.reply value).2 || (u.reply value).1.2 = 0 then
        (.io_error, { u.drained with driver := (u.reply value).2 })
      else if UartDriver.rx_capacity (u.reply value).2 = 0
          || UartDriver.rx_reserve (u.reply value).2 ≥ UartDriver.rx_capacity (u.reply value).2 then
        (.io_error, { u.drained with driver := (u.reply value).2 })
      else (.ok, { u.drained with
        driver := (u.reply value).2
        configuration := at_rate value (u.reply value).1.2 }.observe) := by
    unfold configure
    rw [if_neg (by simp [h.1]), if_neg (by simp [h.2])]
    rfl
  rw [hrun, takes]
  split
  · next hfailed => rw [hfailed]; rfl
  · next hfailed =>
    rw [Bool.not_eq_true] at hfailed
    rw [hfailed]
    split
    · next hfull => rw [hfull]; rfl
    · next hfull =>
      rw [Bool.not_eq_true] at hfull
      rw [hfull]
      rfl

end UartBackend

namespace WatchedUart

open UartBackend

variable {δ : Type} [UartDriver δ] {w : WatchedUart δ}

/-- Calls other than `configure` keep the report and the history. -/
theorem call_keeps {c : UartCall} (h : Described w) (hc : (w.call c).asked = w.asked)
    (hsame : (w.backend.call c).configuration = w.backend.configuration) :
    Described (w.call c) ↔
      (UartDriver.active w.backend.driver = true ∨ UartDriver.active (w.backend.call c).driver = false ∨
        w.backend.configuration.baud = 0 ∨ w.asked = some w.backend.configuration) := by
  have hcurrent : ∀ value, (w.call c).backend.current = some value ↔
      UartDriver.active (w.backend.call c).driver = true ∧ w.backend.configuration.baud ≠ 0 ∧
        w.backend.configuration = value := by
    intro value
    rw [← hsame]
    exact current_eq_some _ value
  unfold Described
  simp only [hcurrent, hc]
  constructor
  · intro hafter
    by_cases hactive : UartDriver.active (w.backend.call c).driver = true
    · by_cases hbaud : w.backend.configuration.baud = 0
      · exact .inr (.inr (.inl hbaud))
      · exact .inr (.inr (.inr (hafter _ ⟨hactive, hbaud, rfl⟩)))
    · exact .inr (.inl (by simpa using hactive))
  · rintro hkept value ⟨hactive, hbaud, rfl⟩
    rcases hkept with hbefore | hinactive | hzero | hasked
    · exact h _ ((current_eq_some _ _).mpr ⟨hbefore, hbaud, rfl⟩)
    · rw [hinactive] at hactive
      cases hactive
    · exact absurd hzero hbaud
    · exact hasked

/-- **One call.** A report that agrees with the driver still does after a call if and only if
the call keeps it. -/
theorem described_call (h : Described w) (c : UartCall) : Described (w.call c) ↔ Keeps w c := by
  cases c with
  | prepare_open => exact call_keeps h rfl rfl
  | read capacity => exact call_keeps h rfl (read_configuration _ _)
  | write data => exact call_keeps h rfl (write_configuration _ _)
  | discard => exact call_keeps h rfl (discard_configuration _)
  | configure value =>
    cases hasks : w.backend.asks value with
    | false =>
      have hsame : w.call (.configure value) = w := by
        simp only [call, UartBackend.call, hasks, configure_unasked _ hasks]
        rfl
      rw [hsame]
      exact iff_of_true h (fun hask => by rw [hasks] at hask; cases hask)
    | true =>
      have hasked : (w.call (.configure value)).asked
          = some (at_rate value (w.backend.reply value).1.2) := if_pos hasks
      have hbackend : (w.call (.configure value)).backend = (w.backend.configure value).2 := rfl
      simp only [Described, Keeps, hasked, hbackend, configure_asked _ hasks, current_eq_some, hasks,
        forall_const]
      cases htakes : takes (w.backend.reply value) with
      | true =>
        rw [if_pos rfl]
        refine iff_of_true ?_ (.inl rfl)
        rintro c ⟨-, -, rfl⟩
        rw [observe_configuration]
      | false =>
        rw [if_neg Bool.false_ne_true, drained_configuration]
        constructor
        -- the driver did not take it: the report agrees if it is silent or was the same
        · intro hafter
          by_cases hactive : UartDriver.active (w.backend.reply value).2 = true
          · by_cases hbaud : w.backend.configuration.baud = 0
            · exact .inr (.inr (.inl hbaud))
            · exact .inr (.inr (.inr (Option.some.inj (hafter _ ⟨hactive, hbaud, rfl⟩)).symm))
          · exact .inr (.inl (by simpa using hactive))
        · rintro hkept c ⟨hactive, hbaud, rfl⟩
          rcases hkept with htaken | hinactive | hzero | hequal
          · cases htaken
          · rw [hinactive] at hactive
            cases hactive
          · exact absurd hzero hbaud
          · rw [hequal]

theorem described_fresh (driver : δ) : Described (fresh driver) := by
  intro c hc
  obtain ⟨-, hbaud, -⟩ := (current_eq_some _ c).mp hc
  exact absurd rfl hbaud

/-- **The report and the wire.** In every run of a backend over any driver, the configuration
reported after each call is the one the driver was last asked to apply, with the rate it
reported, if and only if every call keeps it: a request that reaches the driver is taken, or
leaves the port inactive, or comes before any was taken, or changes nothing. -/
theorem reported_configuration_iff (driver : δ) (calls : List UartCall) :
    (∀ before after, calls = before ++ after → Described (run call (fresh driver) before)) ↔
      ∀ before c after, calls = before ++ c :: after → Keeps (run call (fresh driver) before) c := by
  constructor
  · intro hall before c after hcalls
    have hbefore := hall before (c :: after) hcalls
    have hafter := hall (before ++ [c]) after (by rw [hcalls, List.append_assoc, List.singleton_append])
    rw [run_concat] at hafter
    exact (described_call hbefore c).mp hafter
  · intro hkeeps before
    induction before using List.reverseRecOn with
    | nil => exact fun _ _ => described_fresh driver
    | append_singleton before c ih =>
      intro after hcalls
      rw [List.append_assoc, List.singleton_append] at hcalls
      rw [run_concat]
      exact (described_call (ih (c :: after) hcalls) c).mpr (hkeeps before c after hcalls)

end WatchedUart

/-! ## The port of the boards -/

/-- The word `SerialUART::begin` is given for the format. -/
structure UartFormat where
  stop_bits : ℕ
  data_bits : ℕ
  parity : SerialParity
  deriving DecidableEq

/-- `ArduinoPicoUart`, with the `SerialUART` of the Arduino core behind it: what `begin` was last
given, whether `setFIFOSize` succeeds, what `getActualBaud` answers, and the bytes on hand. -/
structure ArduinoPicoUart where
  running : Bool := false
  begun : Option (ℕ × UartFormat) := none
  set_fifo_size : Bool := true
  get_actual_baud : ℕ → ℤ
  busy : Bool := false
  received : List Byte := []
  available_for_write : ℕ := 0
  overflow : Bool := false

namespace ArduinoPicoUart

def receive_capacity : ℕ := Stream.capacity
def receive_reserve : ℕ := 64

/-- `ArduinoPicoUart::format`. -/
def format (requested : SerialConfiguration) : UartFormat where
  stop_bits := if requested.stop_bits = 1 then 1 else 2
  data_bits :=
    if requested.data_bits = 5 then 5 else if requested.data_bits = 6 then 6
    else if requested.data_bits = 7 then 7 else 8
  parity := requested.parity

/-- `ArduinoPicoUart::configure`; the rate is zero where the source does not set it. -/
def configure (p : ArduinoPicoUart) (requested : SerialConfiguration) : (Bool × ℕ) × ArduinoPicoUart :=
  let p := if p.running then { p with running := false } else p
  if !p.set_fifo_size then ((false, 0), p)
  else
    let p := { p with running := true, begun := some (requested.baud, format requested), received := [] }
    let actual := p.get_actual_baud requested.baud
    let actual_baud := if actual > 0 then actual.toNat else 0
    ((p.running && actual_baud ≠ 0, actual_baud), p)

instance : UartDriver ArduinoPicoUart where
  configure := configure
  active p := p.running
  tx_idle p := p.running && !p.busy
  rx_capacity _ := receive_capacity
  rx_reserve _ := receive_reserve
  rx_pending p := (p.received.length, p)
  read p capacity := (p.received.take capacity, { p with received := p.received.drop capacity })
  write p data :=
    (min data.length p.available_for_write,
      { p with available_for_write := p.available_for_write - min data.length p.available_for_write })
  take_rx_overrun p := (p.overflow, { p with overflow := false })

/-- 115200 8N1 is accepted; then 9600 7E2 is applied, but `getActualBaud` answers -1. -/
def refused_reconfiguration : WatchedUart ArduinoPicoUart :=
  run WatchedUart.call
    (WatchedUart.fresh { get_actual_baud := fun baud => if baud = 9600 then -1 else baud })
    [.configure ⟨115200, 0, 8, 1, .none⟩, .configure ⟨9600, 0, 7, 2, .even⟩]

/-- The wire has 9600 7E2, as the driver was asked last; the report is 115200 8N1. -/
theorem stale_configuration_reported :
    refused_reconfiguration.backend.driver.begun = some (9600, ⟨2, 7, .even⟩) ∧
      refused_reconfiguration.asked = some ⟨9600, 0, 7, 2, .even⟩ ∧
      refused_reconfiguration.backend.current = some ⟨115200, 115200, 8, 1, .none⟩ ∧
      ¬ WatchedUart.Described refused_reconfiguration := by
  have hreport : refused_reconfiguration.backend.current = some ⟨115200, 115200, 8, 1, .none⟩ := by decide
  have hasked : refused_reconfiguration.asked = some ⟨9600, 0, 7, 2, .even⟩ := by decide
  refine ⟨by decide, hasked, hreport, ?_⟩
  intro hdescribed
  have hsame := hdescribed _ hreport
  rw [hasked] at hsame
  cases hsame

end ArduinoPicoUart

/-! ## The reserve

A byte that the driver accepts travels to the peer (`sent`), is held there until the peer answers
it or not (`held`), and an answer travels back (`inbound`) into the receive FIFO. What moves, and
when the transmitter takes another byte, is given in advance for every moment: one passes before
each driver call and each byte of a call. -/

/-- What can happen on the line. -/
inductive LineEvent
  | deliver
  | swallow
  | answer (byte : Byte)
  | arrive

/-- One moment: what happens, and whether the transmitter then takes a byte. -/
structure Moment where
  events : List LineEvent
  ready : Bool

/-- A driver with its line. -/
structure UartLine where
  capacity : ℕ
  reserve : ℕ
  moments : ℕ → Moment
  now : ℕ := 0
  fifo : List Byte := []
  sent : List Byte := []
  held : ℕ := 0
  inbound : List Byte := []
  /-- The latched overrun, and how many bytes have found the FIFO full. -/
  overrun : Bool := false
  lost : ℕ := 0

namespace UartLine

/-- The bytes in flight. -/
def flight (l : UartLine) : ℕ := l.sent.length + l.held + l.inbound.length

def event (l : UartLine) : LineEvent → UartLine
  | .deliver => match l.sent with
    | [] => l
    | _ :: rest => { l with sent := rest, held := l.held + 1 }
  | .swallow => { l with held := l.held - 1 }
  | .answer byte =>
    if l.held = 0 then l else { l with held := l.held - 1, inbound := l.inbound ++ [byte] }
  | .arrive => match l.inbound with
    | [] => l
    | byte :: rest =>
      if l.fifo.length < l.capacity then { l with fifo := l.fifo ++ [byte], inbound := rest }
      else { l with inbound := rest, overrun := true, lost := l.lost + 1 }

/-- A moment passes. -/
def moment (l : UartLine) : UartLine :=
  { (l.moments l.now).events.foldl event l with now := l.now + 1 }

def read_bytes : ℕ → UartLine → List Byte × UartLine
  | 0, l => ([], l)
  | n + 1, l =>
    match l.moment.fifo with
    | [] => ([], l.moment)
    | byte :: rest =>
      let (bytes, l) := read_bytes n { l.moment with fifo := rest }
      (byte :: bytes, l)

/-- The transmitter takes a byte only if the bytes in flight stay within the reserve. -/
def write_bytes : List Byte → UartLine → ℕ × UartLine
  | [], l => (0, l)
  | byte :: rest, l =>
    if (l.moments l.now).ready && l.moment.flight < l.moment.reserve then
      let (n, l) := write_bytes rest { l.moment with sent := l.moment.sent ++ [byte] }
      (n + 1, l)
    else (0, l.moment)

/-- Nothing received and nothing in flight. -/
def quiet (capacity reserve : ℕ) (moments : ℕ → Moment) : UartLine where
  capacity := capacity
  reserve := reserve
  moments := moments

/-- The driver; its reads and writes go byte by byte, as those of `ArduinoPicoUart`. -/
instance : UartDriver UartLine where
  configure l value := ((true, value.baud), l.moment)
  active _ := true
  tx_idle l := l.sent = []
  rx_capacity := capacity
  rx_reserve := reserve
  rx_pending l := (l.moment.fifo.length, l.moment)
  read l size := read_bytes (min size l.moment.fifo.length) l.moment
  write l data := write_bytes data l
  take_rx_overrun l := (l.moment.overrun, { l.moment with overrun := false })

/-- What is received, what is in flight and `spare` more bytes fit the FIFO, no more than the
reserve is in flight, and nothing was lost. -/
structure Fits (l : UartLine) (spare : ℕ) : Prop where
  room : l.fifo.length + l.flight + spare ≤ l.capacity
  reserve : l.flight ≤ l.reserve
  overrun : l.overrun = false
  lost : l.lost = 0

variable {l : UartLine} {spare : ℕ}

/-- **A byte that arrives finds room**, and no event brings a byte into the system. -/
theorem Fits.event (h : Fits l spare) (e : LineEvent) : Fits (l.event e) spare := by
  obtain ⟨hroom, hreserve, hoverrun, hlost⟩ := h
  unfold flight at hroom hreserve
  cases e with
  | deliver =>
    simp only [UartLine.event]
    split
    · exact ⟨hroom, hreserve, hoverrun, hlost⟩
    · next hsent =>
      rw [hsent, List.length_cons] at hroom hreserve
      exact ⟨by simp only [flight]; omega, by simp only [flight]; omega, hoverrun, hlost⟩
  | swallow =>
    simp only [UartLine.event]
    exact ⟨by simp only [flight]; omega, by simp only [flight]; omega, hoverrun, hlost⟩
  | answer byte =>
    simp only [UartLine.event]
    split
    · exact ⟨hroom, hreserve, hoverrun, hlost⟩
    · refine ⟨?_, ?_, hoverrun, hlost⟩
      · simp only [flight, List.length_append, List.length_singleton]
        omega
      · simp only [flight, List.length_append, List.length_singleton]
        omega
  | arrive =>
    simp only [UartLine.event]
    split
    · exact ⟨hroom, hreserve, hoverrun, hlost⟩
    · next hinbound =>
      rw [hinbound, List.length_cons] at hroom hreserve
      -- the byte was counted in flight, so the FIFO is not full
      rw [if_pos (by omega)]
      refine ⟨?_, ?_, hoverrun, hlost⟩
      · simp only [flight, List.length_append, List.length_singleton]
        omega
      · simp only [flight]
        omega

theorem Fits.moment (h : Fits l spare) : Fits l.moment spare := by
  have hevents : Fits ((l.moments l.now).events.foldl UartLine.event l) spare :=
    run_invariant (P := fun l => Fits l spare) UartLine.event h (fun _ e hl => hl.event e) _
  exact ⟨hevents.room, hevents.reserve, hevents.overrun, hevents.lost⟩

theorem Fits.read_bytes (h : Fits l spare) (n : ℕ) : Fits (read_bytes n l).2 spare := by
  induction n generalizing l with
  | zero => exact h
  | succ n ih =>
    have hmoment := h.moment
    simp only [UartLine.read_bytes]
    split
    · exact hmoment
    · next hfifo =>
      refine ih ⟨?_, hmoment.reserve, hmoment.overrun, hmoment.lost⟩
      have hroom := hmoment.room
      rw [hfifo, List.length_cons] at hroom
      exact le_trans (by simp only [flight]; omega) hroom

/-- **A write uses the bytes set aside for it**, also when bytes arrive while it goes on. -/
theorem Fits.write_bytes {data : List Byte} (h : Fits l data.length) : Fits (write_bytes data l).2 0 := by
  induction data generalizing l with
  | nil => exact h
  | cons byte rest ih =>
    obtain ⟨hroom, hreserve, hoverrun, hlost⟩ := h.moment
    rw [List.length_cons] at hroom
    simp only [UartLine.write_bytes]
    split
    · next hready =>
      have hbelow : l.moment.flight < l.moment.reserve := by
        simp only [Bool.and_eq_true, decide_eq_true_eq] at hready
        exact hready.2
      simp only [flight] at hroom hbelow
      refine ih ⟨?_, ?_, hoverrun, hlost⟩
      · simp only [flight, List.length_append, List.length_singleton]
        omega
      · simp only [flight, List.length_append, List.length_singleton]
        omega
    · exact ⟨(Nat.le_add_right _ _).trans hroom, hreserve, hoverrun, hlost⟩

end UartLine

/-- What the backend and the line do. -/
inductive UartTraffic
  | write (data : List Byte)
  | read (capacity : ℕ)
  | discard
  | wait

namespace UartBackend

open UartLine (Fits)

/-- A call of the backend, or a moment without one. -/
def traffic (u : UartBackend UartLine) : UartTraffic → UartBackend UartLine
  | .write data => (u.write data).2
  | .read capacity => (u.read capacity).2
  | .discard => u.discard
  | .wait => { u with driver := u.driver.moment }

/-- The line fits, and the backend has seen no overrun. -/
structure Dry (u : UartBackend UartLine) : Prop where
  fits : Fits u.driver 0
  overrun_events : u.overrun_events = 0
  lost_bytes_minimum : u.lost_bytes_minimum = 0

variable {u : UartBackend UartLine}

theorem Dry.observe (h : Dry u) : Dry u.observe := by
  have hfits := h.fits.moment.moment
  have hnone : u.driver.moment.moment.overrun = false := hfits.overrun
  have hobserve : u.observe = { u with
      driver := { u.driver.moment.moment with overrun := false }
      rx_peak := if u.driver.moment.fifo.length > u.rx_peak then u.driver.moment.fifo.length else u.rx_peak } := by
    simp only [UartBackend.observe, UartDriver.rx_pending, UartDriver.take_rx_overrun, hnone]
    rfl
  rw [hobserve]
  exact ⟨⟨hfits.room, hfits.reserve, rfl, hfits.lost⟩, h.overrun_events, h.lost_bytes_minimum⟩

theorem Dry.driven (h : Dry u) {driver : UartLine} (hfits : Fits driver 0) : Dry { u with driver := driver } :=
  ⟨hfits, h.overrun_events, h.lost_bytes_minimum⟩

theorem Dry.read_driver (h : Dry u) (size : ℕ) : Fits (UartDriver.read u.driver size).2 0 :=
  h.fits.moment.read_bytes _

/-- **A write keeps the line dry**: what it passes on fits beside what was received and the whole
reserve. -/
theorem Dry.write (h : Dry u) (data : List Byte) : Dry (u.write data).2 := by
  have hobserved := h.observe
  have hfits := hobserved.fits.moment
  simp only [UartBackend.write, UartDriver.rx_pending, UartDriver.rx_capacity, UartDriver.rx_reserve]
  split
  · exact ⟨hfits, hobserved.overrun_events, hobserved.lost_bytes_minimum⟩
  · next hopen =>
    simp only [Bool.or_eq_true, decide_eq_true_eq, not_or, not_le, ge_iff_le] at hopen
    refine hobserved.driven (UartLine.Fits.write_bytes ⟨?_, hfits.reserve, hfits.overrun, hfits.lost⟩)
    have hreserve := hfits.reserve
    have htake := List.length_take_le (u.observe.driver.moment.capacity - u.observe.driver.moment.reserve
      - u.observe.driver.moment.fifo.length) data
    omega

theorem Dry.traffic (h : Dry u) (t : UartTraffic) : Dry (u.traffic t) := by
  cases t with
  | write data => exact h.write data
  | read capacity => exact (h.observe.driven (h.observe.read_driver capacity)).observe
  | discard =>
    have hread := h.observe.read_driver Stream.capacity
    refine Dry.observe ⟨hread, h.observe.overrun_events, h.observe.lost_bytes_minimum⟩
  | wait => exact h.driven h.fits.moment

/-- **The backend does not drown itself.** Over a driver with a FIFO and a reserve, whose peer
answers at most once for each byte and whose bytes in flight stay within the reserve, whatever the
calls, their sizes and the moments at which bytes move: no byte finds the FIFO full, and no overrun
is ever reported. -/
theorem reserve_prevents_overrun (capacity reserve : ℕ) (moments : ℕ → Moment) (ops : List UartTraffic) :
    (run traffic { driver := .quiet capacity reserve moments } ops).driver.lost = 0 ∧
      (run traffic { driver := .quiet capacity reserve moments } ops).driver.overrun = false ∧
      (run traffic { driver := .quiet capacity reserve moments } ops).overrun_events = 0 := by
  have hstart : Dry { driver := .quiet capacity reserve moments } :=
    ⟨⟨Nat.zero_le _, Nat.zero_le _, rfl, rfl⟩, rfl, rfl⟩
  have hend := run_invariant traffic hstart (fun _ t hu => hu.traffic t) ops
  exact ⟨hend.fits.lost, hend.fits.overrun, hend.overrun_events⟩

example : (run traffic { driver := .quiet 4 2 fun _ => ⟨[.deliver, .answer 7, .arrive], true⟩ }
    [.write [1, 2, 3], .wait, .write [4, 5]]).driver.fifo = [7, 7] := by
  decide

end UartBackend

end Firmingo
