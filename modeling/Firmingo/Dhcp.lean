/-
The local DHCP server: `src/ports/arduino_pico/local_dhcp.h` and `local_dhcp.c`.

The server has one callback, `receive`. It checks the datagram, walks the lease table once
(expiring, looking for the client's slot and for a free one), decides, builds the reply from
nothing and commits to the table after the reply was sent. What lwIP does with a datagram or
a reply is part of the arrival.

The clock counts milliseconds in 64 bits and never goes back, so an arrival says how much
later it comes than the one before, and times are natural numbers. Counters are too. Only the
age of a lease is a difference of times, and it is taken in 64 bits.
-/
import Firmingo.Octets
import Firmingo.Runs

set_option autoImplicit false

open Octets

namespace Firmingo.Dhcp

/-! ## Addresses and options -/

/-- The address of an `ip_addr_t`. -/
structure Ip4 where
  a : Byte
  b : Byte
  c : Byte
  d : Byte
  deriving DecidableEq, Repr

def Ip4.bytes (ip : Ip4) : List Byte := [ip.a, ip.b, ip.c, ip.d]

/-- The address at an offset of a packet. -/
def ip4_at (p : List Byte) (i : ℕ) : Ip4 :=
  ⟨p.getD i 0, p.getD (i + 1) 0, p.getD (i + 2) 0, p.getD (i + 3) 0⟩

/-- `zero`. -/
def zero (p : List Byte) : Bool := p.all (· = 0)

/-- A field of a packet. -/
def field (p : List Byte) (i n : ℕ) : List Byte := (p.drop i).take n

def options_offset : ℕ := 240
def max_packet : ℕ := 548
def cookie : List Byte := [99, 130, 83, 99]

/-- `options_t`. -/
structure Options where
  type : Byte := 0
  requested : Option Ip4 := none
  server : Option Ip4 := none
  client : Option (List Byte) := none
  deriving DecidableEq, Repr

def client_id_max : ℕ := 32

/-- One option, by its code. -/
def parse_option (code : Byte) (data : List Byte) (o : Options) : Option Options :=
  if code = 53 then
    if data.length ≠ 1 || o.type ≠ 0 || data.getD 0 0 = 0 then none
    else some { o with type := data.getD 0 0 }
  else if code = 50 then
    if data.length ≠ 4 || o.requested.isSome then none
    else some { o with requested := some (ip4_at data 0) }
  else if code = 54 then
    if data.length ≠ 4 || o.server.isSome then none
    else some { o with server := some (ip4_at data 0) }
  else if code = 61 then
    if data.length < 2 || data.length > client_id_max || o.client.isSome then none
    else some { o with client := some data }
  else if code = 52 then none
  else some o

/-- The loop of `parse_options`. Every turn consumes a byte, so that the number of bytes is
fuel enough. -/
def parse_loop : ℕ → List Byte → Options → Option Options
  | 0, _, _ => none
  | _ + 1, [], _ => none
  | fuel + 1, code :: rest, o =>
    if code = 0 then parse_loop fuel rest o
    else if code = 255 then if o.type ≠ 0 then some o else none
    else
      match rest with
      | [] => none
      | n :: rest =>
        if n.toNat > rest.length then none
        else
          match parse_option code (rest.take n.toNat) o with
          | none => none
          | some o => parse_loop fuel (rest.drop n.toNat) o

/-- `parse_options`. -/
def parse_options (p : List Byte) : Option Options :=
  parse_loop (p.length + 1) (p.drop options_offset) {}

/-! ## The lease table -/

def base_ip : ℕ := 16
def lease_ms : ℕ := 600000
def offer_ms : ℕ := 30000
def decline_ms : ℕ := 60000

/-- The key of a client: its identifier, or its hardware address. -/
structure Client where
  key : List Byte
  has_id : Bool
  deriving DecidableEq, Repr

inductive LeaseState
  | free
  | offered
  | bound
  | declined
  deriving DecidableEq, Repr

/-- `firmingo_dhcp_lease_t`; all zero where there is none. -/
structure Lease where
  client : Client := ⟨[], false⟩
  state : LeaseState := .free
  since_ms : ℕ := 0
  duration_ms : ℕ := 0
  deriving DecidableEq, Repr

/-- The eight slots. -/
abbrev Table := Fin 8 → Lease

/-- `firmingo_dhcp_server_t`, without the PCB. -/
structure Server where
  ip : Ip4
  nm : Ip4
  lease : Table := fun _ => {}
  received : ℕ := 0
  replies : ℕ := 0
  ignored : ℕ := 0
  send_errors : ℕ := 0

/-- `same_client`. -/
def same_client (l : Lease) (client : Client) : Bool :=
  l.state ≠ .free && l.state ≠ .declined && l.client = client

/-- `slot`. -/
def slot (d : Server) (ip : Ip4) : Option (Fin 8) :=
  if h : ip.a = d.ip.a ∧ ip.b = d.ip.b ∧ ip.c = d.ip.c ∧ base_ip ≤ ip.d.toNat ∧
      ip.d.toNat < base_ip + 8 then some ⟨ip.d.toNat - base_ip, by omega⟩
  else none

/-- The addresses of the slots. -/
def pool (ip : Ip4) (i : Fin 8) : Ip4 := ⟨ip.a, ip.b, ip.c, UInt8.ofNat (base_ip + i)⟩

def address (d : Server) (i : Fin 8) : Ip4 := pool d.ip i

/-- `now - since_ms`, which wraps if the lease is stamped later than the clock. -/
def elapsed (now since_ms : ℕ) : ℕ :=
  if since_ms ≤ now then now - since_ms else now + 2 ^ 64 - since_ms

/-- A lease that is over is cleared. -/
def expire (now : ℕ) (l : Lease) : Lease :=
  if l.state ≠ .free && elapsed now l.since_ms ≥ l.duration_ms then {} else l

/-- The table, the client's slot and the first free slot, as far as the loop has come. -/
structure Scan where
  lease : Table
  owned : Option (Fin 8) := none
  free_slot : Option (Fin 8) := none

/-- One turn of the loop over the slots. -/
def scan_step (now : ℕ) (client : Client) (s : Scan) (i : Fin 8) : Scan :=
  let l := expire now (s.lease i)
  { lease := Function.update s.lease i l
    owned := if same_client l client then some i else s.owned
    free_slot := if l.state = .free && s.free_slot.isNone then some i else s.free_slot }

def scan (now : ℕ) (client : Client) (lease : Table) : Scan :=
  (List.finRange 8).foldl (scan_step now client) { lease := lease }

/-! ## What to answer -/

inductive Response
  | offer
  | ack
  | nak
  deriving DecidableEq, Repr

def Response.code : Response → Byte
  | .offer => 2
  | .ack => 5
  | .nak => 6

/-- The outcome of the middle of `receive`. -/
inductive Decision
  | ignored
  | release (i : Fin 8)
  | decline (i : Fin 8)
  | respond (response : Response) (chosen : Option (Fin 8))
  deriving DecidableEq, Repr

/-- The client's address, as the client states it. -/
def ciaddr (p : List Byte) : Ip4 := ip4_at p 12

def Ip4.is_zero (ip : Ip4) : Bool := zero ip.bytes

/-- DISCOVER: reserve an offer so simultaneous clients differ. -/
def discover (p : List Byte) (o : Options) (owned free_slot : Option (Fin 8)) : Decision :=
  if !(ciaddr p).is_zero || o.server.isSome then .ignored
  else
    match owned <|> free_slot with
    | none => .ignored
    | some i => .respond .offer (some i)

/-- REQUEST: SELECTING/INIT-REBOOT or RENEWING/REBINDING. -/
def request (d : Server) (p : List Byte) (o : Options) (owned : Option (Fin 8)) : Decision :=
  if o.requested.isSome && !(ciaddr p).is_zero then .ignored
  else if o.server.isSome && o.requested.isNone then .ignored
  else
    let wanted := o.requested.getD (ciaddr p)
    if wanted.is_zero then .ignored
    else
      let chosen := slot d wanted
      if chosen.isNone || owned.isSome && chosen ≠ owned then .respond .nak chosen
      else if chosen ≠ owned then
        -- No binding record: stay silent on INIT-REBOOT/renew after restart.
        if o.server.isNone then .ignored else .respond .nak chosen
      else .respond .ack chosen

/-- RELEASE, only for this client's bound address. -/
def release (d : Server) (p : List Byte) (o : Options) (owned : Option (Fin 8)) : Decision :=
  match owned with
  | none => .ignored
  | some i =>
    if o.server.isNone || o.requested.isSome || slot d (ciaddr p) ≠ some i then .ignored
    else .release i

/-- DECLINE: quarantine a matching offer/binding. -/
def decline (d : Server) (o : Options) (owned : Option (Fin 8)) : Decision :=
  match owned, o.requested with
  | some i, some requested =>
    if o.server.isNone || slot d requested ≠ some i then .ignored else .decline i
  | _, _ => .ignored

/-- INFORM: settings only, no lease allocation. -/
def inform (d : Server) (p : List Byte) (o : Options) : Decision :=
  let ip := ciaddr p
  if o.requested.isSome || ip.is_zero || ip.a ≠ d.ip.a || ip.b ≠ d.ip.b || ip.c ≠ d.ip.c then .ignored
  else .respond .ack none

/-- The chain of message types. -/
def decision (d : Server) (p : List Byte) (o : Options) (owned free_slot : Option (Fin 8)) : Decision :=
  if o.type = 1 then discover p o owned free_slot
  else if o.type = 3 then request d p o owned
  else if o.type = 7 then release d p o owned
  else if o.type = 4 then decline d o owned
  else if o.type = 8 then inform d p o
  else .ignored

/-! ## The reply -/

/-- `option`. -/
def option (code : Byte) (data : List Byte) : List Byte := code :: UInt8.ofNat data.length :: data

/-- `option32`. -/
def option32 (code : Byte) (value : ℕ) : List Byte := option code (bytes32_be value)

/-- The options of a reply, with the END. -/
def reply_options (d : Server) (o : Options) (response : Response) (chosen : Option (Fin 8)) :
    List Byte :=
  option 53 [response.code] ++ option 54 d.ip.bytes
    ++ (if response ≠ .nak then
      option 1 d.nm.bytes ++ (if chosen.isSome then
        option32 51 (lease_ms / 1000) ++ option32 58 (lease_ms / 2000)
          ++ option32 59 (lease_ms / 1000 * 7 / 8)
      else [])
    else [])
    ++ (match o.client with
      | some id => option 61 id
      | none => [])
    ++ [255]

/-- The address given to the client. -/
def yiaddr (d : Server) (response : Response) (chosen : Option (Fin 8)) : Ip4 :=
  match response, chosen with
  | .nak, _ | _, none => ⟨0, 0, 0, 0⟩
  | _, some i => address d i

/-- The fixed fields of a reply, up to the options. -/
def fixed_fields (d : Server) (p : List Byte) (response : Response) (chosen : Option (Fin 8)) :
    List Byte :=
  [2, 1, 6, 0] ++ field p 4 4 ++ [0, 0] ++ field p 10 2
    ++ (if response ≠ .nak then field p 12 4 else List.replicate 4 0)
    ++ ((yiaddr d response chosen).bytes
      ++ (List.replicate 8 0 ++ field p 28 16 ++ List.replicate 192 0 ++ cookie))

/-- The reply, with zeros up to the BOOTP minimum. -/
def reply (d : Server) (p : List Byte) (o : Options) (response : Response) (chosen : Option (Fin 8)) :
    List Byte :=
  let options := reply_options d o response chosen
  fixed_fields d p response chosen ++ (options ++ List.replicate (300 - (options_offset + options.length)) 0)

/-- Initial replies broadcast (no L2 unicast support); renew/INFORM unicast. -/
def destination (p : List Byte) (response : Response) : Ip4 :=
  if response ≠ .nak && !(ciaddr p).is_zero then ciaddr p else ⟨255, 255, 255, 255⟩

/-! ## The callback -/

/-- A datagram, how much later it comes, and what lwIP answers: whether the datagram could be
copied, whether there was a buffer for the reply, and whether it was sent. -/
structure Arrival where
  delay : ℕ
  datagram : Option (List Byte)
  port : ℕ := 68
  copied : Bool := true
  alloc : Bool := true
  send : Bool := true

/-- What can be seen of a datagram: a reply that was sent to a client, a release or a decline. -/
inductive Event
  | sent (client : Client) (packet : List Byte) (destination : Ip4)
  | released (client : Client) (address : Ip4)
  | declined (client : Client) (address : Ip4)
  deriving DecidableEq, Repr

/-- The checks of a datagram, up to its options. -/
def accepted (d : Server) (a : Arrival) (p : List Byte) : Option Options :=
  if a.port ≠ 68 || p.length < options_offset + 4 || p.length > max_packet || !a.copied then none
  else if field p 0 4 ≠ [1, 1, 6, 0] || !zero (field p 24 4) || zero (field p 28 6)
      || (p.getD 28 0).toNat % 2 = 1 || field p 236 4 ≠ cookie then none
  else
    match parse_options p with
    | none => none
    | some o => if o.server.isSome && o.server ≠ some d.ip then none else some o

/-- Who sent a datagram. -/
def client_of (p : List Byte) (o : Options) : Client :=
  match o.client with
  | some id => ⟨id, true⟩
  | none => ⟨field p 28 6, false⟩

/-- The table after a reply was sent. -/
def commit (lease : Table) (now : ℕ) (client : Client) (response : Response)
    (chosen : Option (Fin 8)) : Table :=
  match response, chosen with
  | .nak, _ | _, none => lease
  | .offer, some i =>
    -- Discover retries must not shorten an already committed lease.
    if (lease i).state = .bound then lease
    else Function.update lease i ⟨client, .offered, now, offer_ms⟩
  | .ack, some i => Function.update lease i ⟨client, .bound, now, lease_ms⟩

/-- The end of `receive`: what was decided is done. -/
def act (d : Server) (now : ℕ) (a : Arrival) (p : List Byte) (o : Options) :
    Decision → Server × List Event
  | .ignored => ({ d with ignored := d.ignored + 1 }, [])
  | .release i =>
    ({ d with lease := Function.update d.lease i {} }, [.released (client_of p o) (address d i)])
  | .decline i =>
    ({ d with lease := Function.update d.lease i { d.lease i with
        state := .declined, since_ms := now, duration_ms := decline_ms } },
      [.declined (client_of p o) (address d i)])
  | .respond response chosen =>
    if !a.alloc || !a.send then ({ d with send_errors := d.send_errors + 1 }, [])
    else
      ({ d with
          replies := d.replies + 1
          lease := commit d.lease now (client_of p o) response chosen },
        [.sent (client_of p o) (reply d p o response chosen) (destination p response)])

/-- `receive`. -/
def receive (d : Server) (now : ℕ) (a : Arrival) : Server × List Event :=
  match a.datagram with
  | none => (d, [])
  | some p =>
    let d := { d with received := d.received + 1 }
    match accepted d a p with
    | none => ({ d with ignored := d.ignored + 1 }, [])
    | some o =>
      let s := scan now (client_of p o) d.lease
      let d := { d with lease := s.lease }
      act d now a p o (decision d p o s.owned s.free_slot)

/-! ## Runs -/

/-- The server, the clock, and what happened so far, with its times. -/
structure Net where
  server : Server
  clock : ℕ := 0
  log : List (ℕ × Event) := []

def Net.step (n : Net) (a : Arrival) : Net :=
  let now := n.clock + a.delay
  let (server, events) := receive n.server now a
  ⟨server, now, n.log ++ events.map fun e => (now, e)⟩

/-- A run from an empty table. -/
def after (ip nm : Ip4) (arrivals : List Arrival) : Net :=
  Runs.run Net.step { server := { ip := ip, nm := nm } } arrivals

/-- The message type of a reply. -/
def message_type (packet : List Byte) : Byte := packet.getD 242 0

/-- The address a reply gives. -/
def given (packet : List Byte) : Ip4 := ip4_at packet 16

end Firmingo.Dhcp
