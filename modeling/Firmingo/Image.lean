/-
The experimental image format: `experiments/managed_sketch/image.h` and `image.cpp`.

`sha256` and `validate_image` are translated as they are computed. A pointer that may
be null is an `Option`; the bytes behind it are a list, and a read past its end is
zero, which the length checks of the callers rule out.
-/
import Firmingo.Octets

set_option autoImplicit false

open Octets

namespace Firmingo.Managed

/-! ## SHA-256 -/

/-- The working variables `a` to `h`, also the chaining value. -/
structure Sha where
  a : UInt32
  b : UInt32
  c : UInt32
  d : UInt32
  e : UInt32
  f : UInt32
  g : UInt32
  h : UInt32
  deriving DecidableEq, Repr

namespace Sha

def rotate (x n : UInt32) : UInt32 := (x >>> n) ||| (x <<< (32 - n))

/-- The round constants. -/
def k : List UInt32 := [
  0x428a2f98, 0x71374491, 0xb5c0fbcf, 0xe9b5dba5, 0x3956c25b, 0x59f111f1,
  0x923f82a4, 0xab1c5ed5, 0xd807aa98, 0x12835b01, 0x243185be, 0x550c7dc3,
  0x72be5d74, 0x80deb1fe, 0x9bdc06a7, 0xc19bf174, 0xe49b69c1, 0xefbe4786,
  0x0fc19dc6, 0x240ca1cc, 0x2de92c6f, 0x4a7484aa, 0x5cb0a9dc, 0x76f988da,
  0x983e5152, 0xa831c66d, 0xb00327c8, 0xbf597fc7, 0xc6e00bf3, 0xd5a79147,
  0x06ca6351, 0x14292967, 0x27b70a85, 0x2e1b2138, 0x4d2c6dfc, 0x53380d13,
  0x650a7354, 0x766a0abb, 0x81c2c92e, 0x92722c85, 0xa2bfe8a1, 0xa81a664b,
  0xc24b8b70, 0xc76c51a3, 0xd192e819, 0xd6990624, 0xf40e3585, 0x106aa070,
  0x19a4c116, 0x1e376c08, 0x2748774c, 0x34b0bcb5, 0x391c0cb3, 0x4ed8aa4a,
  0x5b9cca4f, 0x682e6ff3, 0x748f82ee, 0x78a5636f, 0x84c87814, 0x8cc70208,
  0x90befffa, 0xa4506ceb, 0xbef9a3f7, 0xc67178f2]

def initial : Sha :=
  ⟨0x6a09e667, 0xbb67ae85, 0x3c6ef372, 0xa54ff53a, 0x510e527f, 0x9b05688c, 0x1f83d9ab, 0x5be0cd19⟩

/-- The sixteen words of an input block. -/
def input_words (input : List Byte) : List UInt32 :=
  (List.range 16).map fun i => UInt32.ofNat (word32_be (input.drop (4 * i)))

/-- One more word of the schedule. -/
def extend (words : List UInt32) (i : ℕ) : List UInt32 :=
  let w15 := words.getD (i - 15) 0
  let w2 := words.getD (i - 2) 0
  let s0 := rotate w15 7 ^^^ rotate w15 18 ^^^ (w15 >>> 3)
  let s1 := rotate w2 17 ^^^ rotate w2 19 ^^^ (w2 >>> 10)
  words ++ [words.getD (i - 16) 0 + s0 + words.getD (i - 7) 0 + s1]

def schedule (input : List Byte) : List UInt32 :=
  ((List.range 48).map (16 + ·)).foldl extend (input_words input)

/-- One round, with its constant and its word. -/
def round (v : Sha) (kw : UInt32 × UInt32) : Sha :=
  let s1 := rotate v.e 6 ^^^ rotate v.e 11 ^^^ rotate v.e 25
  let choice := (v.e &&& v.f) ^^^ (~~~v.e &&& v.g)
  let t1 := v.h + s1 + choice + kw.1 + kw.2
  let s0 := rotate v.a 2 ^^^ rotate v.a 13 ^^^ rotate v.a 22
  let majority := (v.a &&& v.b) ^^^ (v.a &&& v.c) ^^^ (v.b &&& v.c)
  let t2 := s0 + majority
  ⟨t1 + t2, v.a, v.b, v.c, v.d + t1, v.e, v.f, v.g⟩

/-- `block`. -/
def block (state : Sha) (input : List Byte) : Sha :=
  let v := (k.zip (schedule input)).foldl round state
  ⟨state.a + v.a, state.b + v.b, state.c + v.c, state.d + v.d,
    state.e + v.e, state.f + v.f, state.g + v.g, state.h + v.h⟩

/-- The whole blocks of the data, one after the other. -/
def blocks (state : Sha) (data : List Byte) : ℕ → Sha
  | 0 => state
  | n + 1 => blocks (block state data) (data.drop 64) n

/-- The last block or two: the rest of the data, a bit, and the length in bits. -/
def tail (data : List Byte) (original_size : ℕ) : List Byte :=
  let final_size := if data.length ≥ 56 then 128 else 64
  let bit_count := original_size * 8 % 2 ^ 64
  data ++ [0x80] ++ List.replicate (final_size - 9 - data.length) 0
    ++ bytes32_be (bit_count / 2 ^ 32) ++ bytes32_be bit_count

def digest (v : Sha) : List Byte :=
  [v.a, v.b, v.c, v.d, v.e, v.f, v.g, v.h].flatMap fun word => bytes32_be word.toNat

end Sha

/-- `sha256`. -/
def sha256 (data : List Byte) : List Byte :=
  let whole := data.length / 64
  let rest := Sha.tail (data.drop (64 * whole)) data.length
  (Sha.blocks (Sha.blocks Sha.initial data whole) rest (rest.length / 64)).digest

theorem sha256_length (data : List Byte) : (sha256 data).length = 32 := by
  simp [sha256, Sha.digest]

/-! ## Images -/

def kNanoBoardTag : ℕ := 0x4f4e414e
def kAbiVersion : ℕ := 1
def kSlotAddress : ℕ := 0x10200000
def kSlotBytes : ℕ := 4 * 1024 * 1024
def kCodeOffset : ℕ := 256
def kHeaderBytes : ℕ := 64

/-- `ImageError`, without `ok`. -/
inductive ImageError
  | short_header
  | bad_magic
  | unsupported_abi
  | bad_header_size
  | wrong_board
  | wrong_api
  | wrong_code_address
  | bad_size
  | bad_entry
  | nonzero_padding
  | short_image
  | hash_mismatch
  deriving DecidableEq, Repr

/-- `ImageInfo`. -/
structure ImageInfo where
  code_bytes : ℕ
  setup_address : ℕ
  loop_address : ℕ
  deriving DecidableEq, Repr

/-- `entry_in_code`: a Thumb address inside the code. -/
def entry_in_code (address code_start code_bytes : ℕ) : Bool :=
  if address % 2 = 0 then false
  else
    let instruction_address := address - 1
    instruction_address ≥ code_start && instruction_address - code_start < code_bytes

/-- `validate_image`: the first check that fails, or what the header says. -/
def validate_image (image : Option (List Byte)) (available expected_api_address : ℕ) :
    Except ImageError ImageInfo :=
  match image with
  | none => .error .short_header
  | some image =>
    let u16 (i : ℕ) : ℕ := word16_le (image.drop i)
    let u32 (i : ℕ) : ℕ := word32_le (image.drop i)
    let code_address := kSlotAddress + kCodeOffset
    let code_bytes := u32 20
    let setup_address := u32 24
    let loop_address := u32 28
    if available < kCodeOffset then .error .short_header
    else if image.take 4 ≠ ascii "FMS1" then .error .bad_magic
    else if u16 4 ≠ kAbiVersion then .error .unsupported_abi
    else if u16 6 ≠ kHeaderBytes then .error .bad_header_size
    else if u32 8 ≠ kNanoBoardTag then .error .wrong_board
    else if u32 12 ≠ expected_api_address then .error .wrong_api
    else if u32 16 ≠ code_address then .error .wrong_code_address
    else if code_bytes = 0 || code_bytes > kSlotBytes - kCodeOffset then .error .bad_size
    else if !entry_in_code setup_address code_address code_bytes
        || !entry_in_code loop_address code_address code_bytes then .error .bad_entry
    else if ((image.drop kHeaderBytes).take (kCodeOffset - kHeaderBytes)).any (· ≠ 0) then
      .error .nonzero_padding
    else if available - kCodeOffset < code_bytes then .error .short_image
    else if sha256 ((image.drop kCodeOffset).take code_bytes) ≠ (image.drop 32).take 32 then
      .error .hash_mismatch
    else .ok ⟨code_bytes, setup_address, loop_address⟩

end Firmingo.Managed
