/-
Images with state: `experiments/managed_sketch/stateful_image.h` and
`stateful_image.cpp`.

An FMS2 capsule has code, initialised data and a size of zeroed data, all checked against
the resident's `Contract`. `Generation::begin` prepares the arena of one generation. The
addresses of the two buffers are the port's, so whether they overlap is an input.
-/
import Firmingo.Image

set_option autoImplicit false

open Octets

namespace Firmingo.Managed.Stateful

def kImageVersion : ℕ := 2
def kHeaderBytes : ℕ := 128
def kMaximumCapsuleBytes : ℕ := 4096

/-- `Contract`. -/
structure Contract where
  api_address : ℕ
  state_address : ℕ
  state_capacity_bytes : ℕ
  maximum_capsule_bytes : ℕ
  deriving DecidableEq, Repr

/-- `Error`, without `ok`. -/
inductive Error
  | invalid_contract
  | short_header
  | bad_magic
  | unsupported_version
  | bad_header_size
  | wrong_board
  | wrong_api
  | wrong_code_address
  | bad_code_size
  | bad_entry
  | bad_data_layout
  | bad_state_layout
  | bad_image_size
  | nonzero_reserved
  | header_hash_mismatch
  | payload_hash_mismatch
  | wrong_arena
  | overlapping_storage
  | active_generation
  | bad_generation
  deriving DecidableEq, Repr

/-- `ImageInfo`; all zero where there is no image. -/
structure ImageInfo where
  image_bytes : ℕ := 0
  code_bytes : ℕ := 0
  setup_address : ℕ := 0
  loop_address : ℕ := 0
  data_load_offset : ℕ := 0
  data_bytes : ℕ := 0
  bss_bytes : ℕ := 0
  deriving DecidableEq, Repr

/-- `valid_contract`. -/
def valid_contract (c : Contract) : Bool :=
  let start := 0x20000000
  let limit := 0x20040000
  c.api_address ≥ 0x10000000 && c.api_address < kSlotAddress && c.api_address % 4 = 0
    && c.state_address ≥ start && c.state_address < limit && c.state_address % 4 = 0
    && c.state_capacity_bytes > 0 && c.state_capacity_bytes % 4 = 0
    && c.state_capacity_bytes ≤ limit - c.state_address
    && c.maximum_capsule_bytes ≥ kCodeOffset + 4 && c.maximum_capsule_bytes ≤ kMaximumCapsuleBytes

/-- `entry`: a Thumb address with a whole instruction inside the code. -/
def entry (address bytes : ℕ) : Bool :=
  let base := kSlotAddress + kCodeOffset
  let instruction := address - address % 2
  address % 2 = 1 && instruction ≥ base && instruction - base < bytes
    && bytes - (instruction - base) ≥ 2

/-- `validate_image`: the first check that fails, or the extents of the image. -/
def validate_image (image : Option (List Byte)) (size : ℕ) (contract : Contract) :
    Except Error ImageInfo :=
  if !valid_contract contract then .error .invalid_contract
  else
    match image with
    | none => .error .short_header
    | some image =>
      let u16 (i : ℕ) : ℕ := word16_le (image.drop i)
      let u32 (i : ℕ) : ℕ := word32_le (image.drop i)
      let code := u32 20
      let setup := u32 24
      let loop := u32 28
      let data := u32 36
      let bss := u32 44
      let load := kCodeOffset + code
      let total := load + data
      if size < kCodeOffset then .error .short_header
      else if size > contract.maximum_capsule_bytes then .error .bad_image_size
      else if image.take 4 ≠ ascii "FMS2" then .error .bad_magic
      else if u16 4 ≠ kImageVersion then .error .unsupported_version
      else if u16 6 ≠ kHeaderBytes then .error .bad_header_size
      else if u32 8 ≠ kNanoBoardTag then .error .wrong_board
      else if u32 12 ≠ contract.api_address then .error .wrong_api
      else if u32 16 ≠ kSlotAddress + kCodeOffset then .error .wrong_code_address
      else if code = 0 || code % 4 ≠ 0 || code > contract.maximum_capsule_bytes - kCodeOffset then
        .error .bad_code_size
      else if !entry setup code || !entry loop code then .error .bad_entry
      else if u32 32 ≠ contract.state_address || data % 4 ≠ 0 || bss % 4 ≠ 0
          || data > contract.state_capacity_bytes || bss > contract.state_capacity_bytes - data
          || u32 40 ≠ contract.state_address + data then .error .bad_state_layout
      else if u32 48 ≠ load || data > contract.maximum_capsule_bytes - load then
        .error .bad_data_layout
      else if u32 52 ≠ total || size ≠ total then .error .bad_image_size
      else if u32 56 ≠ 0 || u32 60 ≠ 0 then .error .nonzero_reserved
      else if ((image.drop kHeaderBytes).take (kCodeOffset - kHeaderBytes)).any (· ≠ 0) then
        .error .nonzero_reserved
      else if sha256 (image.take 96) ≠ (image.drop 96).take 32 then .error .header_hash_mismatch
      else if sha256 ((image.drop kCodeOffset).take (total - kCodeOffset)) ≠ (image.drop 64).take 32 then
        .error .payload_hash_mismatch
      else .ok ⟨total, code, setup, loop, load, data, bss⟩

/-- `Arena`: the owned window, if there is one, with the address it is mapped to. -/
structure Arena where
  data : Option (List Byte)
  mapped_address : ℕ
  deriving DecidableEq, Repr

/-- `Generation`. -/
structure Generation where
  arena : Arena
  active : Bool := false
  last_generation : ℕ := 0
  deriving DecidableEq, Repr

/-- `Generation::begin`. Every possible failure precedes the first write. -/
def Generation.begin (g : Generation) (image : Option (List Byte)) (size : ℕ) (contract : Contract)
    (generation : ℕ) (overlaps : Bool) : Except Error ImageInfo × Generation :=
  if g.active then (.error .active_generation, g)
  else if generation = 0 || generation ≤ g.last_generation then (.error .bad_generation, g)
  else
    match validate_image image size contract with
    | .error e => (.error e, g)
    | .ok info =>
      match g.arena.data with
      | none => (.error .wrong_arena, g)
      | some window =>
        if window.length ≠ contract.state_capacity_bytes
            || g.arena.mapped_address ≠ contract.state_address then (.error .wrong_arena, g)
        else if overlaps then (.error .overlapping_storage, g)
        else
          let data := (((image.getD []).drop info.data_load_offset).take info.data_bytes)
          (.ok info, { g with
            arena := { g.arena with
              data := some (data ++ List.replicate (window.length - data.length) 0) }
            last_generation := generation
            active := true })

end Firmingo.Managed.Stateful
