/-
The strict JSON validator: `src/core/json.h` and `src/core/json.cpp`.

`Document.parse` checks one text and records a flat, bounded token table; the
readers (`find`, `string`, `uint32`, `boolean`) index into it and decode strings
again from the source bytes. Positions are indices into the text, so the token
fields are the source's. Its loops and its recursion become structural recursion
on a counter that every call of the source outruns: `text` and `whitespace`
advance by at least one byte a turn, and a value is reached after at most two
calls for each byte in front of it.
-/
import Firmingo.Octets

set_option autoImplicit false

open Octets

namespace Firmingo.Json

/-- `json::Kind`. -/
inductive Kind
  | object
  | array
  | string
  | number
  | boolean
  | null_value
  deriving DecidableEq, Repr

/-- `json::Token`; `stop` is the source's `end`. -/
structure Token where
  kind : Kind
  start : ℕ
  stop : ℕ
  parent : ℕ
  next : ℕ
  key : Bool
  deriving DecidableEq, Repr

def max_tokens : ℕ := 96
def max_depth : ℕ := 8
def max_string : ℕ := 64

/-- The positions and indices a token stores are 16 bits wide. -/
def u16 (n : ℕ) : ℕ := n % 65536

def byte_at (b : List Byte) (p : ℕ) : Byte := b.getD p 0

/-! ## Strings -/

/-- `hex`: the value of a hexadecimal digit. -/
def hex (b : Byte) : Option ℕ :=
  if b ≥ 0x30 ∧ b ≤ 0x39 then some (b.toNat - 0x30)
  else if b ≥ 0x61 ∧ b ≤ 0x66 then some (b.toNat - 0x61 + 10)
  else if b ≥ 0x41 ∧ b ≤ 0x46 then some (b.toNat - 0x41 + 10)
  else none

/-- `hex4`: four digits at `p`, with the position after them. -/
def hex4 (b : List Byte) (size p : ℕ) : Option (ℕ × ℕ) :=
  if size - p < 4 then none
  else do
    let h0 ← hex (byte_at b p)
    let h1 ← hex (byte_at b (p + 1))
    let h2 ← hex (byte_at b (p + 2))
    let h3 ← hex (byte_at b (p + 3))
    return (((h0 * 16 + h1) * 16 + h2) * 16 + h3, p + 4)

/-- The `u` escape, after its `u`: one scalar value, from one or two code units. -/
def unicode_escape (b : List Byte) (size p : ℕ) : Option (ℕ × ℕ) := do
  let (cp, p) ← hex4 b size p
  if cp ≥ 0xd800 ∧ cp ≤ 0xdbff then
    if size - p < 6 ∨ byte_at b p ≠ 0x5c ∨ byte_at b (p + 1) ≠ 0x75 then none
    else do
      let (low, p) ← hex4 b size (p + 2)
      if low < 0xdc00 ∨ low > 0xdfff then none
      else return (0x10000 + (cp - 0xd800) * 1024 + (low - 0xdc00), p)
  else if cp ≥ 0xdc00 ∧ cp ≤ 0xdfff then none
  else return (cp, p)

/-- An escape, after its backslash. -/
def escape (b : List Byte) (size p : ℕ) : Option (ℕ × ℕ) :=
  if p = size then none
  else
    let c := byte_at b p
    if c = 0x22 ∨ c = 0x5c ∨ c = 0x2f then some (c.toNat, p + 1)
    else if c = 0x62 then some (8, p + 1)
    else if c = 0x66 then some (12, p + 1)
    else if c = 0x6e then some (10, p + 1)
    else if c = 0x72 then some (13, p + 1)
    else if c = 0x74 then some (9, p + 1)
    else if c = 0x75 then unicode_escape b size (p + 1)
    else none

/-- The continuation bytes of a multi-byte character: `remaining` of them at `p`. -/
def continuation (b : List Byte) (p cp : ℕ) : ℕ → Option ℕ
  | 0 => some cp
  | remaining + 1 =>
    if (byte_at b p).toNat / 64 ≠ 2 then none
    else continuation b (p + 1) (cp * 64 + (byte_at b p).toNat % 64) remaining

/-- A character whose first byte `c` is at least 0x80; `p` is the position after it. -/
def multibyte (b : List Byte) (size p : ℕ) (c : Byte) : Option (ℕ × ℕ) := do
  let (cp, remaining, minimum) ←
    if c ≥ 0xc2 ∧ c ≤ 0xdf then some (c.toNat % 32, 1, 0x80)
    else if c ≥ 0xe0 ∧ c ≤ 0xef then some (c.toNat % 16, 2, 0x800)
    else if c ≥ 0xf0 ∧ c ≤ 0xf4 then some (c.toNat % 8, 3, 0x10000)
    else none
  if size - p < remaining then none
  else do
    let cp ← continuation b p cp remaining
    if cp < minimum ∨ cp > 0x10ffff ∨ (cp ≥ 0xd800 ∧ cp ≤ 0xdfff) then none
    else return (cp, p + remaining)

/-- One code point of a string, whose first byte at `p` is neither a quote nor a
control character. -/
def code_point (b : List Byte) (size p : ℕ) : Option (ℕ × ℕ) :=
  let c := byte_at b p
  if c = 0x5c then escape b size (p + 1)
  else if c ≥ 0x80 then multibyte b size (p + 1) c
  else some (c.toNat, p + 1)

/-- The UTF-8 bytes of a code point. -/
def utf8 (cp : ℕ) : List Byte :=
  if cp < 0x80 then [UInt8.ofNat cp]
  else if cp < 0x800 then [UInt8.ofNat (0xc0 + cp / 64), UInt8.ofNat (0x80 + cp % 64)]
  else if cp < 0x10000 then
    [UInt8.ofNat (0xe0 + cp / 4096), UInt8.ofNat (0x80 + cp / 64 % 64),
      UInt8.ofNat (0x80 + cp % 64)]
  else
    [UInt8.ofNat (0xf0 + cp / 262144), UInt8.ofNat (0x80 + cp / 4096 % 64),
      UInt8.ofNat (0x80 + cp / 64 % 64), UInt8.ofNat (0x80 + cp % 64)]

/-- `out != nullptr && used >= capacity` of the source, for an optional buffer. -/
def overflows (capacity : Option ℕ) (used : ℕ) : Bool :=
  match capacity with
  | none => false
  | some k => used ≥ k

/-- The loop of `text`: `out` is what has been decoded so far. -/
def text_loop (b : List Byte) (size : ℕ) (capacity : Option ℕ) :
    ℕ → ℕ → List Byte → Option (List Byte × ℕ)
  | 0, _, _ => none
  | fuel + 1, p, out =>
    if p ≥ size then none
    else if byte_at b p = 0x22 then
      if overflows capacity out.length then none else some (out, p + 1)
    else if byte_at b p < 0x20 then none
    else
      match code_point b size p with
      | none => none
      | some (cp, p) =>
        if cp = 0 then none
        else if out.length + (utf8 cp).length > max_string
            || overflows capacity (out.length + (utf8 cp).length) then none
        else text_loop b size capacity fuel p (out ++ utf8 cp)

/-- `text`: one string at `p`, decoded, with the position after its closing quote.
`capacity` is absent where the source passes no buffer. -/
def text (b : List Byte) (size p : ℕ) (capacity : Option ℕ) : Option (List Byte × ℕ) :=
  if p ≥ size ∨ byte_at b p ≠ 0x22 then none else text_loop b size capacity (size - p) (p + 1) []

/-! ## The token table -/

/-- The members of `Document` that `parse` works on. -/
structure State where
  position : ℕ
  tokens : List Token
  deriving DecidableEq, Repr

/-- `Document::string` over a token table. -/
def string_at (b : List Byte) (tokens : List Token) (index capacity : ℕ) : Option (List Byte) :=
  match tokens[index]? with
  | none => none
  | some t =>
    if t.kind ≠ .string then none
    else (text b t.stop t.start (some capacity)).map Prod.fst

def is_space (c : Byte) : Bool := c = 0x20 || c = 0x09 || c = 0x0d || c = 0x0a

/-- `Document::whitespace`. -/
def whitespace_loop (b : List Byte) : ℕ → ℕ → ℕ
  | 0, p => p
  | fuel + 1, p =>
    if p < b.length ∧ is_space (byte_at b p) then whitespace_loop b fuel (p + 1) else p

def whitespace (b : List Byte) (p : ℕ) : ℕ := whitespace_loop b (b.length - p) p

/-- Whether an earlier member name of the same object reads as `name`, or can no
longer be read. -/
def duplicate (b : List Byte) (tokens : List Token) (parent index : ℕ) (name : List Byte) : Bool :=
  (List.range index).any fun i =>
    match tokens[i]? with
    | none => false
    | some t => t.key && t.parent == parent &&
        match string_at b tokens i 65 with
        | none => true
        | some previous => previous == name

/-- `Document::quoted`. -/
def quoted (b : List Byte) (parent : ℕ) (key : Bool) (st : State) : Option State :=
  if st.tokens.length = max_tokens then none
  else
    let index := st.tokens.length
    match text b b.length st.position none with
    | none => none
    | some (_, position) =>
      let token : Token :=
        ⟨.string, u16 st.position, u16 position, u16 parent, u16 (index + 1), key⟩
      let tokens := st.tokens ++ [token]
      if key then
        match string_at b tokens index 65 with
        | none => none
        | some name =>
          if duplicate b tokens parent index name then none else some ⟨position, tokens⟩
      else some ⟨position, tokens⟩

def digit (b : Byte) : Bool := b ≥ 0x30 && b ≤ 0x39

def digits_loop (b : List Byte) : ℕ → ℕ → ℕ
  | 0, p => p
  | fuel + 1, p => if p < b.length ∧ digit (byte_at b p) then digits_loop b fuel (p + 1) else p

/-- The position after the digits at `p`. -/
def digits (b : List Byte) (p : ℕ) : ℕ := digits_loop b (b.length - p) p

/-- The fraction of a number, if there is one at `p`. -/
def fraction (b : List Byte) (p : ℕ) : Option ℕ :=
  if p < b.length ∧ byte_at b p = 0x2e then
    if digits b (p + 1) = p + 1 then none else some (digits b (p + 1))
  else some p

/-- The exponent of a number, if there is one at `p`. -/
def exponent (b : List Byte) (p : ℕ) : Option ℕ :=
  if p < b.length ∧ (byte_at b p = 0x65 ∨ byte_at b p = 0x45) then
    let first :=
      if p + 1 < b.length ∧ (byte_at b (p + 1) = 0x2b ∨ byte_at b (p + 1) = 0x2d) then p + 2
      else p + 1
    if digits b first = first then none else some (digits b first)
  else some p

/-- The number at `p`. -/
def number (b : List Byte) (p : ℕ) : Option ℕ :=
  let p := if byte_at b p = 0x2d then p + 1 else p
  if p = b.length ∨ !digit (byte_at b p) then none
  else do
    let p ← fraction b (if byte_at b p = 0x30 then p + 1 else digits b p)
    exponent b p

/-- The word at `p`: `true`, `false` or `null`, by its first letter. -/
def literal (b : List Byte) (p : ℕ) : Option ℕ :=
  let word :=
    if byte_at b p = 0x74 then ascii "true"
    else if byte_at b p = 0x66 then ascii "false"
    else ascii "null"
  if b.length - p < word.length ∨ (b.drop p).take word.length ≠ word then none
  else some (p + word.length)

/-- A scalar that is not a string: its kind and the position after it. -/
def scalar (b : List Byte) (p : ℕ) : Option (Kind × ℕ) :=
  let c := byte_at b p
  if c = 0x74 ∨ c = 0x66 ∨ c = 0x6e then
    (literal b p).map fun q => (if c = 0x6e then .null_value else .boolean, q)
  else (number b p).map fun q => (.number, q)

mutual

/-- `Document::value`. -/
def value (b : List Byte) : ℕ → ℕ → ℕ → State → Option State
  | 0, _, _, _ => none
  | fuel + 1, parent, depth, st =>
    let start := whitespace b st.position
    if depth > max_depth ∨ start = b.length ∨ st.tokens.length = max_tokens then none
    else if byte_at b start = 0x22 then quoted b parent false ⟨start, st.tokens⟩
    else if byte_at b start = 0x7b ∨ byte_at b start = 0x5b then
      if depth = max_depth then none
      else
        let index := st.tokens.length
        let object : Bool := byte_at b start = 0x7b
        let kind : Kind := if object then .object else .array
        let closing : Byte := if object then 0x7d else 0x5d
        let open_token : Token := ⟨kind, u16 start, 0, u16 parent, 0, false⟩
        let p := whitespace b (start + 1)
        let inside :=
          if p < b.length ∧ byte_at b p = closing then some ⟨p + 1, st.tokens ++ [open_token]⟩
          else members b fuel index object closing depth ⟨p, st.tokens ++ [open_token]⟩
        inside.map fun st =>
          { st with
            tokens := st.tokens.set index
              ⟨kind, u16 start, u16 st.position, u16 parent, u16 st.tokens.length, false⟩ }
    else
      (scalar b start).map fun (kind, p) =>
        ⟨p, st.tokens ++ [⟨kind, u16 start, u16 p, u16 parent, u16 (st.tokens.length + 1), false⟩]⟩

/-- The loop of `Document::value` over the members or elements of a container. -/
def members (b : List Byte) : ℕ → ℕ → Bool → Byte → ℕ → State → Option State
  | 0, _, _, _, _, _ => none
  | fuel + 1, index, object, closing, depth, st =>
    let named : Option State :=
      if object then
        match quoted b index true st with
        | none => none
        | some st =>
          let p := whitespace b st.position
          if p = b.length ∨ byte_at b p ≠ 0x3a then none else some { st with position := p + 1 }
      else some st
    match named with
    | none => none
    | some st =>
      match value b fuel index (depth + 1) st with
      | none => none
      | some st =>
        let p := whitespace b st.position
        if p = b.length then none
        else if byte_at b p = closing then some { st with position := p + 1 }
        else if byte_at b p ≠ 0x2c then none
        else members b fuel index object closing depth { st with position := whitespace b (p + 1) }

end

/-- `json::Document` after a successful `parse`. -/
structure Document where
  bytes : List Byte
  tokens : List Token
  deriving DecidableEq, Repr

namespace Document

/-- `Document::parse`. -/
def parse (bytes : List Byte) : Option Document :=
  if bytes.length = 0 ∨ bytes.length > 4096 then none
  else
    match value bytes (2 * bytes.length + 2) 0xffff 0 ⟨0, []⟩ with
    | none => none
    | some st => if whitespace bytes st.position ≠ bytes.length then none else some ⟨bytes, st.tokens⟩

def count (d : Document) : ℕ := d.tokens.length

/-- `Document::token`; the source's callers stay below `count`. -/
def token (d : Document) (index : ℕ) : Token := d.tokens.getD index ⟨.null_value, 0, 0, 0, 0, false⟩

/-- `Document::string`. -/
def string (d : Document) (index capacity : ℕ) : Option (List Byte) :=
  string_at d.bytes d.tokens index capacity

/-- The member named `key` of the object at `parent`: the search both `Document::find`
and `child` make. -/
def member (d : Document) (parent : ℕ) (key : List Byte) : Option ℕ :=
  ((List.range d.count).drop (parent + 1)).findSome? fun i =>
    if (d.token i).parent = parent ∧ (d.token i).key ∧ d.string i 65 = some key then some (i + 1)
    else none

/-- `Document::find`. -/
def find (d : Document) (key : String) : Option ℕ :=
  if d.count = 0 ∨ (d.token 0).kind ≠ .object then none else d.member 0 (ascii key)

def uint32_loop : List Byte → ℕ → Option ℕ
  | [], v => some v
  | b :: rest, v =>
    if !digit b then none
    else if v > (4294967295 - (b.toNat - 0x30)) / 10 then none
    else uint32_loop rest (v * 10 + (b.toNat - 0x30))

/-- `Document::uint32`. -/
def uint32 (d : Document) (index : ℕ) : Option ℕ :=
  if index ≥ d.count ∨ (d.token index).kind ≠ .number then none
  else
    uint32_loop ((d.bytes.take (d.token index).stop).drop (d.token index).start) 0

/-- `Document::boolean`. -/
def boolean (d : Document) (index : ℕ) : Option Bool :=
  if index ≥ d.count ∨ (d.token index).kind ≠ .boolean then none
  else some (byte_at d.bytes (d.token index).start = 0x74)

end Document

end Firmingo.Json
