/-
The grammar of JSON texts, as syntax trees.

A tree is one way to write a value: the blanks between its parts, the spelling of
each character of a string, the digits of a number. `source` is the text a tree
stands for, so the texts of the grammar are the values of `source`, and what a text
says about the value written is read off the tree: how deep it nests, how many
values and names it has, which names its objects carry.

A tree cannot spell an ill-formed character. An unescaped one is a `Char` in its
UTF-8 encoding, and an escaped one carries the range its code units lie in.
-/
import Firmingo.Octets

set_option autoImplicit false

open Octets

namespace JsonGrammar

/-! ## Blanks and digits -/

/-- The four blanks a text may have between its parts. -/
inductive Space
  | space
  | tab
  | line_feed
  | carriage_return
  deriving DecidableEq, Repr

def Space.byte : Space → Byte
  | .space => 0x20
  | .tab => 0x09
  | .line_feed => 0x0a
  | .carriage_return => 0x0d

def blank (w : List Space) : List Byte := w.map Space.byte

@[simp] theorem blank_nil : blank [] = [] := rfl

@[simp] theorem blank_cons (s : Space) (w : List Space) : blank (s :: w) = s.byte :: blank w := rfl

@[simp] theorem blank_length (w : List Space) : (blank w).length = w.length := List.length_map _

/-- A decimal digit. -/
abbrev Digit := Fin 10

def digit_byte (d : Digit) : Byte := UInt8.ofNat (0x30 + d.val)

def digit_bytes (ds : List Digit) : List Byte := ds.map digit_byte

@[simp] theorem digit_bytes_nil : digit_bytes [] = [] := rfl

@[simp] theorem digit_bytes_cons (d : Digit) (ds : List Digit) :
    digit_bytes (d :: ds) = digit_byte d :: digit_bytes ds := rfl

@[simp] theorem digit_bytes_length (ds : List Digit) : (digit_bytes ds).length = ds.length :=
  List.length_map _

theorem digit_byte_toNat (d : Digit) : (digit_byte d).toNat = 0x30 + d.val := by
  rw [digit_byte, UInt8.toNat_ofNat']
  omega

/-- A hexadecimal digit, in one of its two cases. -/
structure HexDigit where
  value : Fin 16
  upper : Bool
  deriving DecidableEq, Repr

def HexDigit.byte (d : HexDigit) : Byte :=
  if d.value.val < 10 then UInt8.ofNat (0x30 + d.value.val)
  else if d.upper then UInt8.ofNat (0x41 + (d.value.val - 10))
  else UInt8.ofNat (0x61 + (d.value.val - 10))

/-- The four digits of a code unit. -/
structure CodeUnit where
  d3 : HexDigit
  d2 : HexDigit
  d1 : HexDigit
  d0 : HexDigit
  deriving DecidableEq, Repr

def CodeUnit.value (u : CodeUnit) : ℕ :=
  ((u.d3.value.val * 16 + u.d2.value.val) * 16 + u.d1.value.val) * 16 + u.d0.value.val

def CodeUnit.source (u : CodeUnit) : List Byte := [u.d3.byte, u.d2.byte, u.d1.byte, u.d0.byte]

theorem CodeUnit.value_lt (u : CodeUnit) : u.value < 0x10000 := by
  have h3 := u.d3.value.isLt
  have h2 := u.d2.value.isLt
  have h1 := u.d1.value.isLt
  have h0 := u.d0.value.isLt
  unfold CodeUnit.value
  omega

/-! ## Strings -/

/-- The escapes of one letter. -/
inductive Escape
  | quote
  | backslash
  | slash
  | backspace
  | form_feed
  | line_feed
  | carriage_return
  | tab
  deriving DecidableEq, Repr

/-- The letter that follows the backslash. -/
def Escape.letter : Escape → Byte
  | .quote => 0x22
  | .backslash => 0x5c
  | .slash => 0x2f
  | .backspace => 0x62
  | .form_feed => 0x66
  | .line_feed => 0x6e
  | .carriage_return => 0x72
  | .tab => 0x74

/-- The character an escape stands for. -/
def Escape.char : Escape → Char
  | .quote => Char.ofNat 0x22
  | .backslash => Char.ofNat 0x5c
  | .slash => Char.ofNat 0x2f
  | .backspace => Char.ofNat 0x08
  | .form_feed => Char.ofNat 0x0c
  | .line_feed => Char.ofNat 0x0a
  | .carriage_return => Char.ofNat 0x0d
  | .tab => Char.ofNat 0x09

/-- One character of a string, as it is written. -/
inductive Character
  | plain (c : Char) (printable : 0x20 ≤ c.toNat) (ne_quote : c.toNat ≠ 0x22)
      (ne_backslash : c.toNat ≠ 0x5c)
  | escape (e : Escape)
  | unit (u : CodeUnit) (scalar : u.value < 0xd800 ∨ 0xdfff < u.value)
  | pair (high low : CodeUnit) (high_range : 0xd800 ≤ high.value ∧ high.value ≤ 0xdbff)
      (low_range : 0xdc00 ≤ low.value ∧ low.value ≤ 0xdfff)

namespace Character

/-- The character that is written. -/
def char : Character → Char
  | plain c _ _ _ => c
  | escape e => e.char
  | unit u _ => Char.ofNat u.value
  | pair high low _ _ => Char.ofNat (0x10000 + (high.value - 0xd800) * 0x400 + (low.value - 0xdc00))

def source : Character → List Byte
  | plain c _ _ _ => String.utf8EncodeChar c
  | escape e => [0x5c, e.letter]
  | unit u _ => 0x5c :: 0x75 :: u.source
  | pair high low _ _ => 0x5c :: 0x75 :: (high.source ++ 0x5c :: 0x75 :: low.source)

theorem source_length_pos (c : Character) : 0 < c.source.length := by
  cases c with
  | plain c _ _ _ =>
    change 0 < (String.utf8EncodeChar c).length
    rw [String.length_utf8EncodeChar]
    exact Char.utf8Size_pos c
  | escape e => exact Nat.succ_pos _
  | unit u _ => exact Nat.succ_pos _
  | pair high low _ _ => exact Nat.succ_pos _

end Character

/-- The characters between two quotes. -/
abbrev Text := List Character

def Text.source (s : Text) : List Byte := 0x22 :: (s.flatMap Character.source ++ [0x22])

/-- The characters a string denotes. -/
def Text.chars (s : Text) : List Char := s.map Character.char

/-- The UTF-8 encoding of what a string denotes. -/
def Text.decoded (s : Text) : List Byte := s.flatMap fun c => String.utf8EncodeChar c.char

theorem Text.decoded_cons (c : Character) (s : Text) :
    Text.decoded (c :: s) = String.utf8EncodeChar c.char ++ Text.decoded s := rfl

theorem Text.chars_cons (c : Character) (s : Text) :
    Text.chars (c :: s) = c.char :: Text.chars s := rfl

/-! ## Numbers -/

/-- The whole part of a number: a zero, or digits that do not begin with one. -/
inductive Whole
  | zero
  | digits (first : Digit) (rest : List Digit) (nonzero : first ≠ 0)

def Whole.source : Whole → List Byte
  | .zero => [0x30]
  | .digits first rest _ => digit_byte first :: digit_bytes rest

/-- A fraction: a point and at least one digit. -/
structure Fraction where
  first : Digit
  rest : List Digit

def Fraction.source (f : Fraction) : List Byte := 0x2e :: digit_byte f.first :: digit_bytes f.rest

/-- The sign of an exponent. -/
inductive Sign
  | plus
  | minus

def Sign.byte : Sign → Byte
  | .plus => 0x2b
  | .minus => 0x2d

/-- An exponent: its letter in one of two cases, a sign or none, at least one digit. -/
structure Exponent where
  upper : Bool
  sign : Option Sign
  first : Digit
  rest : List Digit

def Exponent.source (e : Exponent) : List Byte :=
  (if e.upper then 0x45 else 0x65) ::
    ((e.sign.map Sign.byte).toList ++ digit_byte e.first :: digit_bytes e.rest)

structure Number where
  minus : Bool
  whole : Whole
  fraction : Option Fraction
  exponent : Option Exponent

def minus_source (minus : Bool) : List Byte := if minus then [0x2d] else []

def fraction_source (f : Option Fraction) : List Byte := (f.map Fraction.source).getD []

def exponent_source (e : Option Exponent) : List Byte := (e.map Exponent.source).getD []

def Number.source (n : Number) : List Byte :=
  minus_source n.minus ++ (n.whole.source
    ++ (fraction_source n.fraction ++ exponent_source n.exponent))

/-! ## Values -/

inductive Container
  | array
  | object
  deriving DecidableEq, Repr

def Container.opening : Container → Byte
  | .array => 0x5b
  | .object => 0x7b

def Container.closing : Container → Byte
  | .array => 0x5d
  | .object => 0x7d

/-- What stands in front of an item: nothing in an array, a name and its colon in an
object. -/
inductive Label : Container → Type
  | element : Label .array
  | name (s : Text) (before after : List Space) : Label .object

def Label.source {k : Container} : Label k → List Byte
  | .element => []
  | .name s before after => s.source ++ (blank before ++ 0x3a :: blank after)

mutual

/-- A value as it is written. -/
inductive Value
  | null
  | boolean (b : Bool)
  | number (n : Number)
  | string (s : Text)
  | empty (k : Container) (inside : List Space)
  | full (k : Container) (before : List Space) (items : Items k)

/-- The items of a container, at least one of them. -/
inductive Items : Container → Type
  | last {k : Container} (label : Label k) (value : Value) (after : List Space) : Items k
  | more {k : Container} (label : Label k) (value : Value) (after before : List Space)
      (rest : Items k) : Items k

end

mutual

/-- The text of a value. -/
def Value.source : Value → List Byte
  | .null => ascii "null"
  | .boolean b => if b then ascii "true" else ascii "false"
  | .number n => n.source
  | .string s => s.source
  | .empty k inside => k.opening :: (blank inside ++ [k.closing])
  | .full k before items => k.opening :: (blank before ++ (items.source ++ [k.closing]))

def Items.source {k : Container} : Items k → List Byte
  | .last label value after => label.source ++ (value.source ++ blank after)
  | .more label value after before rest =>
    label.source ++ (value.source ++ (blank after ++ 0x2c :: (blank before ++ rest.source)))

end

/-! ## What a tree says about its value -/

/-- The names of a label: one in an object, none in an array. -/
def Label.names {k : Container} : Label k → List Text
  | .element => []
  | .name s _ _ => [s]

/-- The names of the items of one container. -/
def Items.names {k : Container} : Items k → List Text
  | .last label _ _ => label.names
  | .more label _ _ _ rest => label.names ++ rest.names

mutual

/-- How many values and member names there are. -/
def Value.count : Value → ℕ
  | .null | .boolean _ | .number _ | .string _ | .empty _ _ => 1
  | .full _ _ items => 1 + items.count

def Items.count {k : Container} : Items k → ℕ
  | .last label value _ => label.names.length + value.count
  | .more label value _ _ rest => label.names.length + (value.count + rest.count)

end

/-- A node of a tree: a member name, or a value with what it contains. -/
inductive Node
  | name (s : Text)
  | value (v : Value)

mutual

/-- The nodes of a value in preorder, each member name in front of its value. -/
def Value.nodes : Value → List Node
  | .null => [.value .null]
  | .boolean b => [.value (.boolean b)]
  | .number n => [.value (.number n)]
  | .string s => [.value (.string s)]
  | .empty k inside => [.value (.empty k inside)]
  | .full k before items => .value (.full k before items) :: items.nodes

def Items.nodes {k : Container} : Items k → List Node
  | .last label value _ => label.names.map .name ++ value.nodes
  | .more label value _ _ rest => label.names.map .name ++ (value.nodes ++ rest.nodes)

end

mutual

/-- How many containers enclose the innermost value, itself included. -/
def Value.depth : Value → ℕ
  | .null | .boolean _ | .number _ | .string _ => 0
  | .empty _ _ => 1
  | .full _ _ items => 1 + items.depth

def Items.depth {k : Container} : Items k → ℕ
  | .last _ value _ => value.depth
  | .more _ value _ _ rest => max value.depth rest.depth

end

mutual

/-- Every string of a value, member names included. -/
def Value.texts : Value → List Text
  | .null | .boolean _ | .number _ | .empty _ _ => []
  | .string s => [s]
  | .full _ _ items => items.texts

def Items.texts {k : Container} : Items k → List Text
  | .last label value _ => label.names ++ value.texts
  | .more label value _ _ rest => label.names ++ (value.texts ++ rest.texts)

end

mutual

/-- No object has two members of one name, however the names are written. -/
def Value.Distinct : Value → Prop
  | .null | .boolean _ | .number _ | .string _ | .empty _ _ => True
  | .full _ _ items => (items.names.map Text.decoded).Nodup ∧ items.Distinct

def Items.Distinct {k : Container} : Items k → Prop
  | .last _ value _ => value.Distinct
  | .more _ value _ _ rest => value.Distinct ∧ rest.Distinct

end

theorem Value.count_pos (v : Value) : 0 < v.count := by
  cases v <;> simp [Value.count]

mutual

theorem Value.nodes_length : ∀ v : Value, v.nodes.length = v.count
  | .null | .boolean _ | .number _ | .string _ | .empty _ _ => by rw [Value.nodes, Value.count]; rfl
  | .full _ _ items => by
      rw [Value.nodes, Value.count, List.length_cons, Items.nodes_length items, Nat.add_comm]

theorem Items.nodes_length {k : Container} : ∀ items : Items k, items.nodes.length = items.count
  | .last label value _ => by
      rw [Items.nodes, Items.count, List.length_append, List.length_map, Value.nodes_length value]
  | .more label value _ _ rest => by
      rw [Items.nodes, Items.count, List.length_append, List.length_append, List.length_map,
        Value.nodes_length value, Items.nodes_length rest]

end

end JsonGrammar
