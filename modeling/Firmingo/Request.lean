/-
Request schemas: `child`, `serial_configuration` and `request` of
`src/core/session.cpp`, and the schema half of `Session::dispatch_upload`
(`src/core/session_upload.cpp`).

Each reads a parsed document and either refuses it or returns what the session
acts on. The bit sets of the source, one bit for each known field name, are kept
as bit sets.
-/
import Firmingo.Json
import Firmingo.Protocol
import Firmingo.Stream

set_option autoImplicit false

open Octets

namespace Firmingo

open Protocol Json

/-- `Command`, by the operation each member stands for. -/
inductive Command
  | hello
  | serial_open
  | serial_close
  | serial_status
  | serial_configure
  | serial_control
  | device_reset
  | device_diagnostics
  | unknown
  deriving DecidableEq, Repr

/-- `Request`. -/
structure Request where
  command : Command := .unknown
  offer : ℕ := max_payload
  channel : ℕ := 0
  config_present : Bool := false
  config_nonempty : Bool := false
  config_complete : Bool := false
  configuration : SerialConfiguration := {}
  deriving DecidableEq, Repr

/-! ## Field sets -/

/-- The indices of the member names of the object at `parent`. -/
def member_names (d : Document) (parent : ℕ) : List ℕ :=
  ((List.range d.count).drop (parent + 1)).filter fun i =>
    (d.token i).key && (d.token i).parent == parent

/-- The bit of a field name in a list of known ones, or `none` for an unknown name. -/
def field_bit (fields : List String) (name : List Byte) : Option UInt32 :=
  let field := (fields.map ascii).idxOf name
  if field = fields.length then none else some (1 <<< UInt32.ofNat field)

/-- The bit set of the root members of a document: the loop that `request` and
`dispatch_upload` share. -/
def present_fields (d : Document) (fields : List String) : Option UInt32 :=
  (member_names d 0).foldlM (fun present i => do
    let name ← d.string i 65
    let bit ← field_bit fields name
    return present ||| bit) 0

/-! ## Requests -/

/-- `child`. -/
def child (d : Document) (parent : ℕ) (key : String) : Option ℕ := d.member parent (ascii key)

/-- An optional member: its default, or what `read` makes of it. -/
def optional_member {α : Type} (index : Option ℕ) (default : α) (read : ℕ → Option α) : Option α :=
  match index with
  | none => some default
  | some i => read i

/-- An unsigned member that must fit a byte. -/
def uint8 (d : Document) (index : ℕ) : Option ℕ := (d.uint32 index).filter fun value => !(value > 255)

/-- The parity names of `serial_configuration`. -/
def parity_of_name (name : List Byte) : Option SerialParity :=
  if name = ascii "none" then some .none
  else if name = ascii "even" then some .even
  else if name = ascii "odd" then some .odd
  else none

/-- `serial_configuration`. -/
def serial_configuration (d : Document) (object : ℕ) (r : Request) : Option Request :=
  if (d.token object).kind ≠ .object then none
  else do
    let names := member_names d object
    let fields := ["baud", "data_bits", "parity", "stop_bits", "flow_control"]
    names.forM fun i => do
      let name ← d.string i 65
      let _ ← field_bit fields name
    let baud := child d object "baud"
    let data := child d object "data_bits"
    let stop := child d object "stop_bits"
    let parity := child d object "parity"
    let flow := child d object "flow_control"
    let baud_value ← optional_member baud r.configuration.baud d.uint32
    let data_value ← optional_member data r.configuration.data_bits (uint8 d)
    let stop_value ← optional_member stop r.configuration.stop_bits (uint8 d)
    let parity_value ← optional_member parity r.configuration.parity fun i =>
      (d.string i 16).bind parity_of_name
    let _ ← optional_member flow (ascii "none") fun i =>
      (d.string i 16).filter fun name => name = ascii "none"
    return { r with
      config_present := true
      config_nonempty := !names.isEmpty
      config_complete := baud.isSome && data.isSome && parity.isSome && stop.isSome
      configuration := { r.configuration with
        baud := baud_value, data_bits := data_value, stop_bits := stop_value,
        parity := parity_value } }

/-- The operations of the source, in its order. -/
def operations : List (String × Command) :=
  [("hello", .hello), ("serial.open", .serial_open), ("serial.close", .serial_close),
    ("serial.status", .serial_status), ("serial.configure", .serial_configure),
    ("serial.control", .serial_control), ("device.reset", .device_reset),
    ("device.diagnostics", .device_diagnostics)]

def command_of_name (name : List Byte) : Command :=
  ((operations.find? fun o => ascii o.1 == name).map Prod.snd).getD .unknown

/-- The fields a command accepts, as bits of `request_fields`. -/
def allowed_fields : Command → UInt32
  | .hello => 1 ||| (2 ||| 4)
  | .serial_open | .serial_configure => 1 ||| (8 ||| 16)
  | .serial_close | .serial_status => 1 ||| 8
  | .serial_control => 1 ||| (8 ||| 32 ||| 64)
  | .device_reset => 1 ||| 128
  | _ => 1

def request_fields : List String :=
  ["op", "max_payload", "sdk_version", "channel_id", "config", "control", "value", "scope"]

/-- The offer of a hello: the default, or a member in range. -/
def hello_offer (d : Document) (default : ℕ) : Option ℕ :=
  match d.find "max_payload" with
  | none => some default
  | some i => (d.uint32 i).filter fun value => !(value < 512 || value > 65536)

/-- The version member of a hello, which is checked and not used. -/
def hello_sdk_ok (d : Document) : Bool :=
  match d.find "sdk_version" with
  | none => true
  | some i => (d.string i 65).isSome

/-- The hello half of `request`. -/
def request_hello (d : Document) (r : Request) : Option Request :=
  match hello_offer d r.offer with
  | none => none
  | some offer => if hello_sdk_ok d then some { r with offer := offer } else none

/-- The control half of `request`: selector and value. -/
def request_control (d : Document) : Option Unit := do
  let control ← d.find "control"
  let value ← d.find "value"
  let selector ← d.string control 33
  if selector = [] then none
  else if selector = ascii "break" || selector = ascii "dtr" || selector = ascii "rts" then
    (d.boolean value).map fun _ => ()
  else if (d.token value).kind = .number then (d.uint32 value).map fun _ => ()
  else if (d.token value).kind = .string || (d.token value).kind = .boolean then some ()
  else none

/-- The channel commands of `request`: a channel, and the configuration or control
each of them takes. -/
def request_channel (d : Document) (r : Request) : Option Request := do
  let channel ← (d.find "channel_id").bind d.uint32
  if channel = 0 then none
  else do
    let r := { r with channel := channel }
    let config := d.find "config"
    let r ← optional_member config r fun i => serial_configuration d i r
    if r.command = .serial_configure && config.isNone then none
    else if r.command = .serial_control then (request_control d).map fun _ => r
    else some r

/-- `request`. -/
def request (d : Document) : Option Request :=
  if (d.token 0).kind ≠ .object then none
  else do
    let operation ← (d.find "op").bind (d.string · 33)
    if operation = [] then none
    else do
      let command := command_of_name operation
      let r : Request := { command := command }
      if command = .unknown then return r
      else do
        let present ← present_fields d request_fields
        if present &&& ~~~ allowed_fields command ≠ 0 then none
        else
          match command with
          | .hello => request_hello d r
          | .device_diagnostics => return r
          | .device_reset => do
            let scope ← (d.find "scope").bind (d.string · 33)
            if scope = ascii "device" then return r else none
          | _ => request_channel d r

/-! ## Upload methods -/

/-- The methods `dispatch_upload` serves. -/
inductive UploadMethod
  | begin
  | status
  | finish
  | commit
  | abort
  deriving DecidableEq, Repr

/-- The parameters of a method, after the schema check. -/
structure UploadRequest where
  method : UploadMethod
  target : ℕ
  board : List Byte := []
  format : List Byte := []
  size : ℕ := 0
  digest : List Byte := List.replicate 32 0
  id : ℕ := 0
  deriving DecidableEq, Repr

def upload_methods : List (String × UploadMethod) :=
  [("flash.begin", .begin), ("flash.status", .status), ("flash.finish", .finish),
    ("flash.commit", .commit), ("flash.abort", .abort)]

/-- The method a document asks for: `none` sends it on to `request`. -/
def upload_method (d : Document) : Option UploadMethod := do
  let operation ← (d.find "op").bind (d.string · 33)
  (upload_methods.find? fun m => ascii m.1 == operation).map Prod.snd

def upload_fields : List String :=
  ["op", "target_id", "board_id", "format", "size", "sha256", "upload_id"]

/-- `number`: a nonzero unsigned root member. -/
def nonzero (d : Document) (key : String) : Option ℕ := do
  let value ← (d.find key).bind d.uint32
  if value = 0 then none else return value

/-- The value of a lowercase hexadecimal digit. -/
def lower_nibble (b : Byte) : Option ℕ :=
  if b ≥ 0x30 ∧ b ≤ 0x39 then some (b.toNat - 0x30)
  else if b ≥ 0x61 ∧ b ≤ 0x66 then some (b.toNat - 0x61 + 10)
  else none

/-- The digest spelled by pairs of digits. -/
def digest_of_hex : List Byte → Option (List Byte)
  | high :: low :: rest => do
    let h ← lower_nibble high
    let l ← lower_nibble low
    let tail ← digest_of_hex rest
    return UInt8.ofNat (h * 16 + l) :: tail
  | [] => some []
  | [_] => none

/-- The schema check of `dispatch_upload`: `none` answers `invalid_argument`. -/
def upload_request (d : Document) (method : UploadMethod) : Option UploadRequest := do
  let present ← present_fields d upload_fields
  let required : UInt32 := if method = .begin then 63 else 67
  if (d.token 0).kind ≠ .object || present ≠ required then none
  else do
    let target ← nonzero d "target_id"
    if method = .begin then do
      let size ← nonzero d "size"
      let board ← (d.find "board_id").bind (d.string · 33)
      let format ← (d.find "format").bind (d.string · 33)
      let hash ← (d.find "sha256").bind (d.string · 65)
      if board = [] || format = [] || hash.length ≠ 64 then none
      else do
        let digest ← digest_of_hex hash
        return { method, target, board, format, size, digest }
    else do
      let id ← nonzero d "upload_id"
      return { method, target, id }

end Firmingo
