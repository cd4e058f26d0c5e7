/-
The TCP port: `src/ports/arduino_pico/tcp_session.h` and `tcp_session.cpp`.

A `TcpSessionServer` has two slots. A slot holds the protocol control block (PCB) of a
connection, at most one chain of packet buffers (pbuf) that the connection has received and
not yet read, and a `Session`. lwIP calls back when a connection arrives, when data arrives,
when the peer has acknowledged data and when the connection has failed; all work on the
sessions is left to `poll`.

PCBs and pbufs are handles. What the server does with them, and what lwIP does to them, is
recorded in a trace: every `tcp_*` call on a connection's PCB, every use of a pbuf, and the
life of the sessions. lwIP itself is whoever picks the callbacks and the answers of the calls;
`callback` is where the rules it keeps are written: it calls back only what is registered on a
PCB that is alive, with a pbuf it owns.
-/
import Firmingo.Ledgers
import Firmingo.System
import Firmingo.Transport

set_option autoImplicit false

open Octets

namespace Firmingo.Tcp

/-! ## Handles, calls and events -/

/-- `connection_limit` is two. -/
abbrev Slot := Fin 2

/-- `close_ms`. -/
def close_ms : UInt32 := 1000

/-- The values of `err_t` that the server tells apart. -/
inductive Err
  | ok
  | mem
  | abrt
  | other
  deriving DecidableEq, Repr

abbrev Pcb := ℕ

/-- A chain of packet buffers: its handle and its bytes. `tot_len` is a `u16_t`. -/
structure Pbuf where
  handle : ℕ
  bytes : List Byte
  tot_len_lt : bytes.length < 2 ^ 16
  deriving DecidableEq

def Pbuf.tot_len (b : Pbuf) : ℕ := b.bytes.length

/-- The calls of lwIP on a PCB, with what they answer. -/
inductive Call
  | arg (slot : Option Slot)
  | recv (set : Bool)
  | err (set : Bool)
  | sent (set : Bool)
  | nagle_disable
  | sndbuf
  | write (count : ℕ) (answer : Err)
  | output
  | recved (count : ℕ)
  | abort
  | close (answer : Err)
  deriving DecidableEq, Repr

/-- What is recorded. -/
inductive Event
  /-- `accept` was called with a PCB, and has put it into a slot. -/
  | offered (p : Pcb)
  | accepted (p : Pcb) (k : Slot)
  /-- A call of the server on a connection's PCB. -/
  | called (p : Pcb) (c : Call)
  /-- `failed` was called: lwIP has destroyed the PCB. -/
  | failed (p : Pcb)
  /-- `receive` was called, and has returned. -/
  | receiving (p : Pcb) (packet : Option Pbuf)
  | returned (p : Pcb) (k : Slot) (packet : Option Pbuf) (answer : Err)
  /-- The server has read a pbuf, or freed it. -/
  | looked (b : Pbuf)
  | freed (b : Pbuf)
  /-- Bytes of a pbuf were handed to the session of a slot, on behalf of a PCB. -/
  | handed (p : Pcb) (k : Slot) (b : Pbuf) (bytes : List Byte)
  /-- The life of the sessions; the first number tells them apart. -/
  | constructed (n : ℕ) (k : Slot) (pcb : Option Pcb)
  | polled (k : Slot)
  | destroyed (k : Slot)
  /-- `clear` has returned. -/
  | cleared (k : Slot)
  deriving DecidableEq

/-! ## What a trace says about a handle -/

/-- The life of a PCB. It is `offered` while the `accept` that was given it runs. -/
inductive Life
  | unknown
  | offered
  | live
  | gone
  deriving DecidableEq, Repr

/-- What has happened to a PCB: its life and slot, the callbacks that are set on it, the bytes
received on it and handed to a session for it, the credit returned to lwIP, whether `tcp_close`
was called and whether a session was made for it. -/
structure Account where
  life : Life := .unknown
  slot : Option Slot := none
  arg : Option Slot := none
  recv : Bool := false
  err : Bool := false
  sent : Bool := false
  taken : List Byte := []
  handed : List Byte := []
  credit : ℕ := 0
  asked : Bool := false
  served : Bool := false
  deriving DecidableEq

namespace Account

def call (v : Account) : Call → Account
  | .arg slot => { v with arg := slot }
  | .recv set => { v with recv := set }
  | .err set => { v with err := set }
  | .sent set => { v with sent := set }
  | .recved count => { v with credit := v.credit + count }
  | .abort => { v with life := .gone }
  | .close .ok => { v with life := .gone, asked := true }
  | .close _ => { v with asked := true }
  | .nagle_disable | .sndbuf | .write _ _ | .output => v

def after (v : Account) : Event → Account
  | .offered _ => { v with life := .offered }
  | .accepted _ k => { v with life := .live, slot := some k }
  | .called _ c => v.call c
  | .failed _ => { v with life := .gone }
  | .returned _ _ (some b) .ok => { v with taken := v.taken ++ b.bytes }
  | .handed _ _ _ bytes => { v with handed := v.handed ++ bytes }
  | .constructed _ _ _ => { v with served := true }
  | _ => v

end Account

/-- The PCB an event is about. -/
def Event.pcb : Event → Option Pcb
  | .offered p | .accepted p _ | .called p _ | .failed p | .receiving p _ | .returned p _ _ _
  | .handed p _ _ _ => some p
  | .constructed _ _ pcb => pcb
  | .looked _ | .freed _ | .polled _ | .destroyed _ | .cleared _ => none

/-- Who owns a pbuf: lwIP, the `receive` that was given it, or the server, which has it from a
PCB in a slot. -/
inductive Custody
  | stack
  | callback
  | server (p : Pcb) (k : Slot)
  | freed
  deriving DecidableEq, Repr

def Custody.after (v : Custody) : Event → Custody
  | .receiving _ _ => .callback
  | .returned p k _ .ok => .server p k
  | .returned _ _ _ .mem => .stack
  | .freed _ => .freed
  | _ => v

/-- The pbuf an event is about. -/
def Event.pbuf : Event → Option ℕ
  | .receiving _ packet | .returned _ _ packet _ => packet.map Pbuf.handle
  | .looked b | .freed b | .handed _ _ b _ => some b.handle
  | _ => none

/-- The session in a slot: its number and the PCB it was made for. -/
def tenant_after (v : Option (ℕ × Option Pcb)) : Event → Option (ℕ × Option Pcb)
  | .constructed n _ pcb => some (n, pcb)
  | .destroyed _ => none
  | _ => v

/-- The slot an event is about, if it begins or ends a session. -/
def Event.slot : Event → Option Slot
  | .constructed _ k _ | .destroyed k => some k
  | _ => none

/-- The account of a PCB. -/
def account (l : List Event) (p : Pcb) : Account := Ledgers.account Event.pcb Account.after {} p l

/-- Who owns the pbuf with a handle. -/
def custody (l : List Event) (b : ℕ) : Custody := Ledgers.account Event.pbuf Custody.after .stack b l

/-- The session in a slot. -/
def tenant (l : List Event) (k : Slot) : Option (ℕ × Option Pcb) :=
  Ledgers.account Event.slot tenant_after none k l

/-- How many sessions were made. -/
def constructions (l : List Event) : ℕ :=
  l.countP fun e => match e with | .constructed _ _ _ => true | _ => false

/-! ## A connection -/

/-- `Connection`. -/
structure Connection where
  server : Bool := false
  pcb : Option Pcb := none
  packet : Option Pbuf := none
  offset : ℕ := 0
  accepted_at : UInt32 := 0
  closing_at : UInt32 := 0
  unacked : UInt32 := 0
  occupied : Bool := false
  closing : Bool := false
  replacing : Bool := false

def Connection.connected (c : Connection) : Bool := c.pcb.isSome && !c.closing

/-- What lwIP answers to the calls one poll may make on a PCB. -/
structure Answers where
  sndbuf : ℕ
  write : Err
  close : Err

/-- A connection and the trace. -/
structure Link where
  connection : Connection
  trace : List Event

namespace Link

variable (t : Link)

def log (e : Event) : Link := { t with trace := t.trace ++ [e] }

def call (p : Pcb) (c : Call) : Link := t.log (.called p c)

/-- The four calls that set the callbacks of a connection. -/
def attach (p : Pcb) (k : Slot) : Link :=
  (((t.call p (.arg (some k))).call p (.recv true)).call p (.err true)).call p (.sent true)

/-- `detach`. -/
def detach (p : Pcb) : Link :=
  (((t.call p (.arg none)).call p (.recv false)).call p (.err false)).call p (.sent false)

/-- `discard_packet`. -/
def discard_packet : Link :=
  let t := match t.connection.packet with
    | some b => t.log (.freed b)
    | none => t
  { t with connection := { t.connection with packet := none, offset := 0 } }

/-- `abort_pcb`. -/
def abort_pcb : Link :=
  match t.connection.pcb with
  | none => t
  | some p => ({ t with connection := { t.connection with pcb := none } }.detach p).call p .abort

/-- `Connection::read`. The difference of `tot_len` and `offset` is never negative. -/
def read (k : Slot) (capacity : ℕ) : List Byte × Link :=
  match t.connection.pcb, t.connection.packet with
  | some p, some b =>
    if t.connection.closing then ([], t)
    else
      let count := min capacity (b.tot_len - t.connection.offset) % 2 ^ 16
      let copied := (b.bytes.drop t.connection.offset).take count
      let t := (t.log (.looked b)).log (.handed p k b copied)
      let offset := (t.connection.offset + copied.length) % 2 ^ 16
      let t := { t with connection := { t.connection with offset := offset } }
      let t := t.call p (.recved copied.length)
      (copied, if offset = b.tot_len then t.discard_packet else t)
  | _, _ => ([], t)

/-- `Connection::write`. -/
def write (a : Answers) (data : List Byte) : ℕ × Link :=
  match t.connection.pcb with
  | none => (0, t)
  | some p =>
    if t.connection.closing then (0, t)
    else
      let t := t.call p .sndbuf
      let count := min data.length a.sndbuf % 2 ^ 16
      if count = 0 then (0, t)
      else
        let t := t.call p (.write count a.write)
        match a.write with
        | .mem => (0, t)
        | .ok =>
          let unacked := t.connection.unacked + UInt32.ofNat count
          (count, { t with connection := { t.connection with unacked := unacked } })
        | _ => (0, t.abort_pcb)

end Link

/-- The `ByteIO` a connection is to its session. -/
def io (k : Slot) (a : Answers) : ByteIO Link where
  connected t := t.connection.connected
  read t capacity := t.read k capacity
  write t data := t.write a data

end Tcp

open Tcp

/-! ## The server -/

/-- `TcpSessionServer`, with the channel, the sessions and the upload service it works on. -/
structure TcpSessionServer (β υ : Type) where
  sys : System β υ
  connections : Slot → Connection := fun _ => {}
  identity : Identity
  /-- `upload_` is given. -/
  has_upload : Bool
  /-- `listener_` is set. -/
  listening : Bool := false
  accepts : UInt32 := 0
  receive_callbacks : UInt32 := 0
  sent_callbacks : UInt32 := 0
  errors : UInt32 := 0
  received_bytes : UInt64 := 0
  sent_bytes : UInt64 := 0
  trace : List Tcp.Event := []

namespace TcpSessionServer

/-- `increment`. -/
def increment (value : UInt32) : UInt32 := if value ≠ 0xffffffff then value + 1 else value

/-- `add`. -/
def add (value amount : UInt64) : UInt64 :=
  if 0xffffffffffffffff - value < amount then 0xffffffffffffffff else value + amount

/-- The owner token of the session in a slot. -/
def token (k : Slot) : UInt32 := UInt32.ofNat (k.val + 1)

variable {β υ : Type}

/-- A server on a device with no session. -/
def initial (b : β) (u : υ) (has_upload : Bool) : TcpSessionServer β υ where
  sys := System.initial b u
  identity := ⟨[], [], [], []⟩
  has_upload := has_upload

variable (srv : TcpSessionServer β υ) (k : Slot)

def session : Option Session := srv.sys.sessions (token k)

def link : Tcp.Link := ⟨srv.connections k, srv.trace⟩

/-- Put back what was done on one connection. -/
def relink (t : Tcp.Link) : TcpSessionServer β υ :=
  { srv with connections := Function.update srv.connections k t.connection, trace := t.trace }

def on (f : Tcp.Link → Tcp.Link) : TcpSessionServer β υ := srv.relink k (f (srv.link k))

/-- Change the fields of one connection. -/
def set (f : Connection → Connection) : TcpSessionServer β υ :=
  { srv with connections := Function.update srv.connections k (f (srv.connections k)) }

def log (e : Tcp.Event) : TcpSessionServer β υ := { srv with trace := srv.trace ++ [e] }

variable [StreamBackend β] [UploadService υ]

/-! ### Sessions -/

/-- The session of a slot is constructed, for the PCB the slot has. -/
def construct : TcpSessionServer β υ :=
  { srv with
    sys := srv.sys.step
      (.construct (token k) (srv.connections k).accepted_at srv.identity srv.has_upload) }.log
    (.constructed (constructions srv.trace) k (srv.connections k).pcb)

/-- The session of a slot is destroyed, if there is one. -/
def destroy : TcpSessionServer β υ :=
  if (srv.session k).isSome then
    { srv with sys := srv.sys.step (.destroy (token k)) }.log (.destroyed k)
  else srv

/-- `session->poll(connection, now)`. -/
def poll_session (s : Session) (now : UInt32) (memory : Option MemorySamples) (a : Tcp.Answers) :
    SessionResult × TcpSessionServer β υ :=
  let srv := srv.log (.polled k)
  let after := (srv.sys.ctx s).poll_on (io k a) now memory (srv.link k)
  (after.2.session.result, { srv.relink k after.1 with sys := srv.sys.put (token k) after.2 })

/-! ### Ends of connections -/

/-- `Connection::clear`. -/
def clear : TcpSessionServer β υ :=
  let srv := srv.destroy k
  let srv := srv.on k Tcp.Link.abort_pcb
  let srv := srv.on k Tcp.Link.discard_packet
  let srv := srv.set k fun c =>
    { c with occupied := false, closing := false, replacing := false, unacked := 0 }
  srv.log (.cleared k)

/-- The graceful end of `close`: what was not read is credited and given up. -/
def hang_up (p : Pcb) (answer : Err) : TcpSessionServer β υ :=
  srv.on k fun t =>
    let t := match t.connection.packet with
      | some b => (t.log (.looked b)).call p (.recved (b.tot_len - t.connection.offset))
      | none => t
    (t.discard_packet.detach p).call p (.close answer)

/-- `close`. -/
def close (now : UInt32) (a : Tcp.Answers) : TcpSessionServer β υ :=
  match (srv.connections k).pcb with
  | none => srv.clear k
  | some p =>
    if now - (srv.connections k).closing_at ≥ close_ms then srv.clear k
    else if (srv.connections k).unacked ≠ 0 then srv.on k (·.call p .output)
    else
      let srv := srv.hang_up k p a.close
      match a.close with
      | .ok => (srv.set k fun c => { c with pcb := none }).clear k
      | .mem => srv.on k (·.attach p k)
      | _ => srv.clear k

/-- `stop`. The calls on the listener are not recorded. -/
def stop : TcpSessionServer β υ := { (srv.clear 0).clear 1 with listening := false }

/-- `begin`, with what `tcp_new_ip_type`, `tcp_bind` and `tcp_listen_with_backlog` answer. -/
def begin (identity : Identity) (clock created bound listened : Bool) :
    Bool × TcpSessionServer β υ :=
  if srv.listening || !clock then (false, srv)
  else if !created then (false, srv)
  else if !bound then (false, srv)
  else if !listened then (false, srv)
  else (true, { srv with identity := identity, listening := true })

/-! ### Callbacks -/

/-- The first slot that `accept` does not pass over. -/
def vacancy : Option Slot :=
  [0, 1].find? fun k => !((srv.connections k).occupied && (srv.connections k).pcb.isSome)

/-- `accept` has found a slot. -/
def reserve (p : Pcb) (clock : UInt32) : TcpSessionServer β υ :=
  let srv := srv.set k fun c =>
    { c with
      replacing := c.occupied
      occupied := true
      server := true
      pcb := some p
      accepted_at := clock }
  let srv := srv.on k fun t => (t.attach p k).call p .nagle_disable
  { srv with accepts := increment srv.accepts }.log (.accepted p k)

/-- `accept`. `clock` is what the clock shows. -/
def accept (pcb : Option Pcb) (error : Err) (clock : UInt32) : Err × TcpSessionServer β υ :=
  match pcb with
  | none => (if error = .ok then .mem else error, srv)
  | some p =>
    let srv := srv.log (.offered p)
    match if error = .ok then srv.vacancy else none with
    | some k => (.ok, srv.reserve k p clock)
    | none => (.abrt, srv.log (.called p .abort))

/-- `receive`, on the connection `arg` points to. -/
def receive (p : Pcb) (packet : Option Pbuf) (error : Err) : Err × TcpSessionServer β υ :=
  let srv := srv.log (.receiving p packet)
  match packet with
  | none => (.abrt, (srv.on k Tcp.Link.abort_pcb).log (.returned p k none .abrt))
  | some b =>
    if error ≠ .ok then
      (.abrt, ((srv.log (.freed b)).on k Tcp.Link.abort_pcb).log (.returned p k (some b) .abrt))
    else
      let c := srv.connections k
      if c.packet.isSome || c.closing || c.replacing then
        (.mem, srv.log (.returned p k (some b) .mem))
      else
        let srv := srv.set k fun c => { c with packet := some b }
        let srv := if c.server then
            { srv.log (.looked b) with
              receive_callbacks := increment srv.receive_callbacks
              received_bytes := add srv.received_bytes (UInt64.ofNat b.tot_len) }
          else srv
        (.ok, srv.log (.returned p k (some b) .ok))

/-- `failed`. -/
def failed (p : Pcb) : TcpSessionServer β υ :=
  let srv := srv.log (.failed p)
  let srv := if (srv.connections k).server then { srv with errors := increment srv.errors } else srv
  srv.set k fun c => { c with pcb := none }

/-- `sent`. -/
def sent (bytes : UInt16) : TcpSessionServer β υ :=
  let srv := if (srv.connections k).server then
      { srv with
        sent_callbacks := increment srv.sent_callbacks
        sent_bytes := add srv.sent_bytes bytes.toUInt64 }
    else srv
  srv.set k fun c => { c with unacked := c.unacked - min bytes.toUInt32 c.unacked }

/-- A callback, as lwIP makes it. -/
inductive Callback
  | accept (pcb : Option Pcb) (error : Err) (clock : UInt32)
  | receive (p : Pcb) (packet : Option Pbuf) (error : Err)
  | failed (p : Pcb)
  | sent (p : Pcb) (bytes : UInt16)

/-- lwIP may call back: the listener is there and the PCB is new, or the PCB is alive, the
callback is set on it and the pbuf is one that lwIP owns. -/
def enabled : Callback → Bool
  | .accept pcb _ _ => srv.listening && pcb.all fun p => (account srv.trace p).life = .unknown
  | .receive p packet _ =>
    (account srv.trace p).life = .live && (account srv.trace p).recv &&
      packet.all fun b => custody srv.trace b.handle = .stack
  | .failed p => (account srv.trace p).life = .live && (account srv.trace p).err
  | .sent p _ => (account srv.trace p).life = .live && (account srv.trace p).sent

/-- A callback runs, on the connection that is the argument set on the PCB. -/
def callback (c : Callback) : TcpSessionServer β υ :=
  if !srv.enabled c then srv
  else
    match c with
    | .accept pcb error clock => (srv.accept pcb error clock).2
    | .receive p packet error =>
      (account srv.trace p).arg.elim srv fun k => (srv.receive k p packet error).2
    | .failed p => (account srv.trace p).arg.elim srv fun k => srv.failed k p
    | .sent p bytes => (account srv.trace p).arg.elim srv fun k => srv.sent k bytes

/-! ### `poll` -/

/-- What a socket has left in a slot that was reserved for the next one is disposed of. -/
def dispose : TcpSessionServer β υ :=
  if (srv.connections k).replacing then
    ((srv.destroy k).on k Tcp.Link.discard_packet).set k fun c =>
      { c with closing := false, replacing := false, unacked := 0 }
  else srv

/-- The first loop of `poll`: what has lost its PCB is disposed of. -/
def tidy : TcpSessionServer β υ :=
  let srv := srv.dispose k
  if (srv.connections k).occupied && (srv.connections k).pcb.isNone then srv.clear k else srv

/-- What the second loop does after a session was polled. -/
def conclude (now : UInt32) (a : Tcp.Answers) (result : SessionResult) : TcpSessionServer β υ :=
  match (srv.connections k).pcb with
  | none => srv.clear k
  | some p =>
    if result ≠ .running then
      ((srv.destroy k).set k fun c => { c with closing := true, closing_at := now }).close k now a
    else srv.on k (·.call p .output)

/-- The second loop of `poll`: a slot is closed further, or its session is polled. -/
def serve (now : UInt32) (memory : Option MemorySamples) (a : Tcp.Answers) : TcpSessionServer β υ :=
  if !(srv.connections k).occupied then srv
  else if (srv.connections k).closing then srv.close k now a
  else
    let srv := if (srv.session k).isNone then srv.construct k else srv
    (srv.session k).elim srv fun s =>
      let (result, srv) := srv.poll_session k s now memory a
      srv.conclude k now a result

/-- `poll`. The callbacks are those that `sys_check_timeouts` makes. -/
def poll (now : UInt32) (memory : Option MemorySamples) (timeouts : List Callback)
    (answers : Slot → Tcp.Answers) : TcpSessionServer β υ :=
  let srv := timeouts.foldl callback srv
  let srv := (srv.tidy 0).tidy 1
  (srv.serve 0 now memory (answers 0)).serve 1 now memory (answers 1)

/-! ## Runs -/

/-- What can happen: calls on the server, callbacks between them, and changes of the backend
and of the upload service. -/
inductive Op (β ο : Type)
  | begin (identity : Identity) (clock created bound listened : Bool)
  | callback (c : Callback)
  | poll (now : UInt32) (memory : Option MemorySamples) (timeouts : List Callback)
      (answers : Slot → Tcp.Answers)
  | stop
  | backend (b : β)
  | service (move : ο)

variable {ο : Type} (service : υ → ο → υ)

def step : Op β ο → TcpSessionServer β υ
  | .begin identity clock created bound listened =>
    (srv.begin identity clock created bound listened).2
  | .callback c => srv.callback c
  | .poll now memory timeouts answers => srv.poll now memory timeouts answers
  | .stop => srv.stop
  | .backend b => { srv with sys := srv.sys.step (.backend b) }
  | .service move => { srv with sys := srv.sys.step (.upload (service srv.sys.upload move)) }

/-- A run of a server from its construction. -/
def after (b : β) (u : υ) (has_upload : Bool) (ops : List (Op β ο)) : TcpSessionServer β υ :=
  Runs.run (fun srv o => srv.step service o) (initial b u has_upload) ops

end TcpSessionServer

end Firmingo
