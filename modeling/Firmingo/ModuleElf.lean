/-
The FMS2 builder: the `Elf` reader and `module_capsule` of
`experiments/managed_sketch/build_stateful_proof.py`.

The script reads a linked ELF, checks its extents and emits a capsule; the device checks the
capsule with other code. `built_capsules_accepted` says that the device takes every capsule
the script returns, with the same extents and entries, and that the arena starts as the ELF's
`.data` followed by zeros.

A section name is the list of its ASCII bytes. The header words are read where the extents
were checked before, so reading them cannot fail.
-/
import Firmingo.Boot
import Firmingo.Composite

set_option autoImplicit false

open Octets

namespace Firmingo.Managed.Builder

open Stateful (Contract)

def ELF_LIMIT : ℕ := 8 * 1024 * 1024
def CODE_ADDRESS : ℕ := 0x10200100

/-- An ASCII name as text. -/
def decode (name : List Byte) : String := String.ofList (name.map fun b => Char.ofNat b.toNat)

/-- `raise ValueError(message)` where the condition holds. -/
def raise_if (condition : Bool) (message : String) : Except PyError Unit :=
  if condition then .error (.value_error message) else .ok ()

/-! ## The ELF reader -/

/-- A section header, `"<10I"`. -/
structure Section where
  name : ℕ
  type : ℕ
  flags : ℕ
  addr : ℕ
  offset : ℕ
  size : ℕ
  link : ℕ
  info : ℕ
  align : ℕ
  entsize : ℕ
  deriving DecidableEq, Repr, Inhabited

def Section.unpack (b : List Byte) : Section :=
  let word (i : ℕ) := word32_le (b.drop (4 * i))
  ⟨word 0, word 1, word 2, word 3, word 4, word 5, word 6, word 7, word 8, word 9⟩

/-- A program header, `"<8I"`, up to the fields that are read. -/
structure Segment where
  type : ℕ
  offset : ℕ
  vaddr : ℕ
  paddr : ℕ
  filesz : ℕ
  deriving DecidableEq, Repr

def Segment.unpack (b : List Byte) : Segment :=
  let word (i : ℕ) := word32_le (b.drop (4 * i))
  ⟨word 0, word 1, word 2, word 3, word 4⟩

/-- A symbol, `"<IIIBBH"` without its name. -/
structure Symbol where
  address : ℕ
  size : ℕ
  info : ℕ
  other : ℕ
  index : ℕ
  deriving DecidableEq, Repr, Inhabited

def Symbol.unpack (b : List Byte) : Symbol :=
  ⟨word32_le (b.drop 4), word32_le (b.drop 8), (b.getD 12 0).toNat, (b.getD 13 0).toNat,
    word16_le (b.drop 14)⟩

/-- `Elf`. The dictionaries are lists in the order of insertion. -/
structure Elf where
  data : List Byte
  sections : List Section
  segments : List Segment
  named : List (List Byte × Section)
  symbols : List (List Byte × List Symbol)
  deriving DecidableEq, Repr

namespace Elf

/-- `extent`. -/
def extent (data : List Byte) (offset size : ℕ) : Except PyError (List Byte) := do
  raise_if (!(offset ≤ data.length) || !(size ≤ data.length - offset)) "truncated ELF extent"
  return (data.drop offset).take size

/-- `string`. A name that is not ASCII is a `UnicodeDecodeError`, which is a `ValueError`. -/
def string (data : List Byte) (offset : ℕ) : Except PyError (List Byte) := do
  raise_if (!(offset < data.length) || !(data.drop offset).contains 0) "invalid ELF string"
  let name := (data.drop offset).takeWhile (· ≠ 0)
  raise_if (name.any (128 ≤ ·)) "ordinal not in range(128)"
  return name

/-- `section_bytes`. -/
def section_bytes (data : List Byte) (header : Section) : Except PyError (List Byte) := do
  raise_if (header.type = 8) "NOBITS has no file contents"
  extent data header.offset header.size

/-- `self.named[name] = section`, for a new name. -/
def name_section (names : List Byte) (named : List (List Byte × Section)) (header : Section) :
    Except PyError (List (List Byte × Section)) := do
  let name ← string names header.name
  raise_if (named.lookup name).isSome "duplicate ELF section name"
  return named ++ [(name, header)]

/-- `self.symbols.setdefault(name, []).append(symbol)`. -/
def add_symbol (symbols : List (List Byte × List Symbol)) (name : List Byte) (symbol : Symbol) :
    List (List Byte × List Symbol) :=
  if (symbols.lookup name).isSome then
    symbols.map fun entry => if entry.1 = name then (name, entry.2 ++ [symbol]) else entry
  else symbols ++ [(name, [symbol])]

/-- The symbols of one section, if it is a symbol table. -/
def read_symbols (data : List Byte) (sections : List Section) (symbols : List (List Byte × List Symbol))
    (header : Section) : Except PyError (List (List Byte × List Symbol)) :=
  if header.type ≠ 2 then return symbols
  else do
    raise_if (header.entsize ≠ 16 || header.size % 16 ≠ 0 || header.size / 16 > 65536
      || !(0 < header.link && header.link < sections.length)) "invalid symbol table"
    let strings_section := sections.getD header.link default
    raise_if (strings_section.type ≠ 3) "invalid symbol names"
    let names ← section_bytes data strings_section
    let table ← section_bytes data header
    (List.range (table.length / 16)).foldlM (fun symbols i => do
      let entry := table.drop (16 * i)
      let name ← string names (word32_le entry)
      return add_symbol symbols name (Symbol.unpack entry)) symbols

/-- `Elf(data)`. -/
def read (data : List Byte) : Except PyError Elf := do
  raise_if (!(52 ≤ data.length && data.length ≤ ELF_LIMIT)) "ELF size outside proof limit"
  let kind := word16_le (data.drop 16)
  let machine := word16_le (data.drop 18)
  let version := word32_le (data.drop 20)
  let phoff := word32_le (data.drop 28)
  let shoff := word32_le (data.drop 32)
  let flags := word32_le (data.drop 36)
  let ehsize := word16_le (data.drop 40)
  let phsize := word16_le (data.drop 42)
  let phcount := word16_le (data.drop 44)
  let shsize := word16_le (data.drop 46)
  let shcount := word16_le (data.drop 48)
  let strings := word16_le (data.drop 50)
  raise_if (data.take 8 ≠ [0x7f, 0x45, 0x4c, 0x46, 1, 1, 1, 0]
      || (kind, machine, version, ehsize, phsize, shsize) ≠ (2, 40, 1, 52, 32, 40)
      || flags / 2 ^ 24 ≠ 5 || flags &&& 0x400 ≠ 0
      || !(1 ≤ phcount && phcount ≤ 128) || !(1 ≤ shcount && shcount ≤ 512))
    "expected bounded ELF32 ARM EABI5 executable"
  let _ ← extent data phoff (phcount * 32)
  let _ ← extent data shoff (shcount * 40)
  let sections := (List.range shcount).map fun i => Section.unpack (data.drop (shoff + i * 40))
  let segments := (List.range phcount).map fun i => Segment.unpack (data.drop (phoff + i * 32))
  raise_if (!(0 < strings && strings < shcount) || (sections.getD strings default).type ≠ 3)
    "missing section names"
  let names ← section_bytes data (sections.getD strings default)
  let named ← (sections.drop 1).foldlM (name_section names) []
  let symbols ← sections.foldlM (read_symbols data sections) []
  return ⟨data, sections, segments, named, symbols⟩

/-- `symbol`. -/
def symbol (elf : Elf) (name : String) : Except PyError Symbol := do
  let found := (elf.symbols.lookup (ascii name)).getD []
  raise_if (found.length ≠ 1) ("expected one ELF symbol: " ++ name)
  return found.headD default

/-- `self.named[name]`. -/
def get (elf : Elf) (name : String) : Except PyError Section :=
  match elf.named.lookup (ascii name) with
  | none => .error .key_error
  | some header => .ok header

end Elf

/-! ## `module_capsule` -/

/-- What `module_capsule` returns beside the capsule. -/
structure Facts where
  codeBytes : ℕ
  dataBytes : ℕ
  bssBytes : ℕ
  setupAddress : ℕ
  loopAddress : ℕ
  deriving DecidableEq, Repr

/-- The type and flags a section may be allocated with. -/
def allowed : List (List Byte × ℕ × ℕ) :=
  [(ascii ".text", 1, 6), (ascii ".data", 1, 3), (ascii ".bss", 8, 3)]

/-- The first loop: what a section of the module may be. -/
def check_section (entry : List Byte × Section) : Except PyError Unit := do
  let (name, header) := entry
  raise_if (header.flags &&& 2 ≠ 0 && header.size ≠ 0
      && allowed.lookup name ≠ some (header.type, header.flags))
    ("unsupported allocated module section: " ++ decode name)
  raise_if ((header.type = 4 || header.type = 9) && header.size ≠ 0) "module has unresolved relocations"

/-- The second loop: no global symbol is undefined. -/
def check_symbols (entry : List Byte × List Symbol) : Except PyError Unit :=
  raise_if (entry.2.any fun symbol => symbol.info / 2 ^ 4 ≠ 0 && symbol.index = 0)
    "module has an undefined symbol"

/-- The bytes that a segment loads, with its addresses. -/
def load (data : List Byte) (segment : Segment) : Except PyError (ℕ × ℕ × List Byte) := do
  let bytes ← Elf.extent data segment.offset segment.filesz
  return (segment.vaddr, segment.paddr, bytes)

/-- An entry: a Thumb function in `.text`, with room for an instruction. -/
def entry (elf : Elf) (text : Section) (code : List Byte) (name : String) : Except PyError ℕ := do
  let symbol ← elf.symbol name
  let address := symbol.address ||| 1
  raise_if (symbol.info ≠ 0x12 || !(0 < symbol.index && symbol.index < elf.sections.length)
      || elf.sections.getD symbol.index default ≠ text
      || !(CODE_ADDRESS ≤ address - address % 2 && address - address % 2 + 2 ≤ CODE_ADDRESS + code.length))
    "module entry outside executable code"
  return address

/-- `struct.pack("<14I", ...)`. -/
def pack_words (words : List ℕ) : Except PyError (List Byte) :=
  if words.any (2 ^ 32 ≤ ·) then .error .struct_error else .ok (words.flatMap bytes32_le)

/-- The fourteen words of the header after the magic, the version and the size. -/
def header_words (contract : Contract) (code_bytes data_bytes bss_bytes setup loop : ℕ) : List ℕ :=
  [0x4f4e414e, contract.api_address, CODE_ADDRESS, code_bytes, setup, loop,
    contract.state_address, data_bytes, contract.state_address + data_bytes, bss_bytes,
    256 + code_bytes, 256 + code_bytes + data_bytes, 0, 0]

/-- `header[:96]`, with the digest of the payload. -/
def front (words payload : List Byte) : List Byte :=
  ascii "FMS2" ++ bytes16_le 2 ++ bytes16_le 128 ++ words ++ sha256 payload

/-- `header`, with the digest of its own first part. -/
def header (words payload : List Byte) : List Byte :=
  front words payload ++ sha256 (front words payload) ++ List.replicate 128 0

/-- `module_capsule`. -/
def module_capsule (data : List Byte) (contract : Contract) : Except PyError (List Byte × Facts) := do
  let elf ← Elf.read data
  elf.named.forM check_section
  elf.symbols.forM check_symbols
  let text ← elf.get ".text"
  let data_section ← elf.get ".data"
  let bss ← elf.get ".bss"
  let code ← Elf.section_bytes data text
  let initialized ← Elf.section_bytes data data_section
  let base := contract.state_address
  raise_if (text.addr ≠ CODE_ADDRESS || code.isEmpty || code.length % 4 ≠ 0
      || data_section.addr ≠ base || bss.addr ≠ base + initialized.length
      || initialized.length % 4 ≠ 0 || bss.size % 4 ≠ 0
      || initialized.length + bss.size > contract.state_capacity_bytes
      || 256 + code.length + initialized.length > contract.maximum_capsule_bytes)
    "module flash/RAM extent mismatch"
  let expected_loads := (if code.isEmpty then [] else [(CODE_ADDRESS, CODE_ADDRESS, code)])
    ++ (if initialized.isEmpty then [] else [(base, CODE_ADDRESS + code.length, initialized)])
  let loads ← (elf.segments.filter fun s => s.type = 1 && s.filesz ≠ 0).mapM (load data)
  raise_if (loads ≠ expected_loads) "module LOAD bytes do not match code and initialized-data extents"
  let setup ← entry elf text code "firmingo_sketch_setup"
  let loop ← entry elf text code "firmingo_sketch_loop"
  let words ← pack_words (header_words contract code.length initialized.length bss.size setup loop)
  let payload := code ++ initialized
  return (header words payload ++ payload, ⟨code.length, initialized.length, bss.size, setup, loop⟩)

/-! ## Taking the script apart -/

theorem bind_eq_ok {ε α β : Type} (x : Except ε α) (f : α → Except ε β) (b : β) :
    (x >>= f) = .ok b ↔ ∃ a, x = .ok a ∧ f a = .ok b := by
  cases x with
  | error e => simp [bind, Except.bind]
  | ok a => simp [bind, Except.bind]

theorem pure_eq_ok {ε α : Type} (a b : α) : (pure a : Except ε α) = .ok b ↔ a = b := by
  simp [pure, Except.pure]

theorem raise_if_eq_ok (condition : Bool) (message : String) (u : Unit) :
    raise_if condition message = .ok u ↔ condition = false := by
  cases condition with
  | false => simp [raise_if]
  | true => simp [raise_if]

theorem or_one (n : ℕ) : n ||| 1 = 2 * (n / 2) + 1 := by
  apply Nat.eq_of_testBit_eq
  intro i
  cases i with
  | zero => simp [Nat.testBit_zero]
  | succ i =>
    have hhalf : (2 * (n / 2) + 1) / 2 = n / 2 := by omega
    rw [Nat.testBit_or, Nat.testBit_succ, Nat.testBit_succ, Nat.testBit_succ, hhalf]
    simp

/-- An entry that was found is one the device takes. -/
theorem entry_ok {elf : Elf} {text : Section} {code : List Byte} {name : String} {address : ℕ}
    (h : entry elf text code name = .ok address) : Stateful.entry address code.length = true := by
  simp only [entry, bind_eq_ok, pure_eq_ok, raise_if_eq_ok] at h
  obtain ⟨symbol, _, _, hcheck, rfl⟩ := h
  simp only [Bool.or_eq_false_iff, Bool.not_eq_false', Bool.and_eq_true, decide_eq_true_eq, or_one,
    CODE_ADDRESS] at hcheck
  simp only [Stateful.entry, or_one, kSlotAddress, kCodeOffset, Bool.and_eq_true, decide_eq_true_eq,
    ge_iff_le]
  omega

theorem pack_words_ok {words : List ℕ} {packed : List Byte} (h : pack_words words = .ok packed) :
    (∀ w ∈ words, w < 2 ^ 32) ∧ packed = words.flatMap bytes32_le := by
  unfold pack_words at h
  split at h
  · cases h
  next hfits =>
  cases h
  refine ⟨?_, rfl⟩
  intro w hw
  by_contra hlarge
  exact hfits (List.any_eq_true.mpr ⟨w, hw, by simpa using hlarge⟩)

/-! ## The header -/

section Header

variable {words : List ℕ} (payload : List Byte)

theorem front_length (hcount : words.length = 14) :
    (front (words.flatMap bytes32_le) payload).length = 96 := by
  have hmagic : (ascii "FMS2").length = 4 := by
    unfold ascii
    rfl
  simp [front, hmagic, sha256_length, List.length_flatMap, hcount]

theorem header_length (words : List ℕ) (hcount : words.length = 14) :
    (header (words.flatMap bytes32_le) payload).length = 256 := by
  simp [header, front_length payload hcount, sha256_length]

/-- A word of the header. -/
theorem header_word (hwords : ∀ w ∈ words, w < 2 ^ 32) {i : ℕ} (hi : i < words.length) :
    word32_le ((header (words.flatMap bytes32_le) payload).drop (8 + 4 * i)) = words[i] := by
  have hfirst : (ascii "FMS2" ++ bytes16_le 2 ++ bytes16_le 128).length = 8 := by
    unfold ascii
    rfl
  have hsplit : header (words.flatMap bytes32_le) payload
      = (ascii "FMS2" ++ bytes16_le 2 ++ bytes16_le 128)
        ++ (words.flatMap bytes32_le ++ (sha256 payload
          ++ (sha256 (front (words.flatMap bytes32_le) payload) ++ List.replicate 128 0))) := by
    simp only [header, front, List.append_assoc]
  rw [hsplit, ← List.drop_drop, ← hfirst, List.drop_left, word32_le_table hwords _ hi]

/-- The magic, and the two half words after it. -/
theorem header_start (packed : List Byte) :
    (header packed payload).take 4 = ascii "FMS2" ∧ word16_le ((header packed payload).drop 4) = 2 ∧
      word16_le ((header packed payload).drop 6) = 128 := by
  have hmagic : (ascii "FMS2").length = 4 := by
    unfold ascii
    rfl
  simp only [header, front, List.append_assoc]
  refine ⟨?_, ?_, ?_⟩
  · rw [← hmagic, List.take_left]
  · rw [← hmagic, List.drop_left, word16_le_bytes16_le (by decide)]
  · rw [show 6 = (ascii "FMS2").length + (bytes16_le 2).length by rw [hmagic, bytes16_le_length],
      ← List.drop_drop, List.drop_left, List.drop_left, word16_le_bytes16_le (by decide)]

/-- The two digests of the header, and its zeros. -/
theorem header_digests (hcount : words.length = 14) :
    ((header (words.flatMap bytes32_le) payload).drop 64).take 32 = sha256 payload ∧
    sha256 ((header (words.flatMap bytes32_le) payload).take 96)
      = ((header (words.flatMap bytes32_le) payload).drop 96).take 32 ∧
    (header (words.flatMap bytes32_le) payload).drop 128 = List.replicate 128 0 := by
  have hfront := front_length payload hcount
  have hhash := sha256_length (front (words.flatMap bytes32_le) payload)
  refine ⟨?_, ?_, ?_⟩
  · have hstart : (ascii "FMS2" ++ bytes16_le 2 ++ bytes16_le 128 ++ words.flatMap bytes32_le).length
        = 64 := by
      have hsum := hfront
      rw [front, List.length_append, sha256_length] at hsum
      omega
    rw [header, front, List.append_assoc, List.append_assoc, ← hstart, List.drop_left,
      ← sha256_length payload, List.take_left]
  · rw [header, List.append_assoc, ← hfront, List.take_left, List.drop_left, ← hhash,
      List.take_left]
  · have hboth : (front (words.flatMap bytes32_le) payload
        ++ sha256 (front (words.flatMap bytes32_le) payload)).length = 128 := by
      rw [List.length_append, hfront, hhash]
    rw [header, ← hboth, List.drop_left]

end Header

/-- The header that the script writes is one the device takes. -/
theorem header_valid {contract : Contract} {code_bytes data_bytes bss_bytes setup loop : ℕ}
    (payload : List Byte)
    (hwords : ∀ w ∈ header_words contract code_bytes data_bytes bss_bytes setup loop, w < 2 ^ 32)
    (hcode : 0 < code_bytes) (hcode4 : code_bytes % 4 = 0) (hdata4 : data_bytes % 4 = 0)
    (hbss4 : bss_bytes % 4 = 0) (hstate : data_bytes + bss_bytes ≤ contract.state_capacity_bytes)
    (htotal : 256 + code_bytes + data_bytes ≤ contract.maximum_capsule_bytes)
    (hsetup : Stateful.entry setup code_bytes = true) (hloop : Stateful.entry loop code_bytes = true) :
    Stateful.Header (header ((header_words contract code_bytes data_bytes bss_bytes setup loop).flatMap
        bytes32_le) payload) contract
      ⟨256 + code_bytes + data_bytes, code_bytes, setup, loop, 256 + code_bytes, data_bytes,
        bss_bytes⟩ := by
  have hcount : (header_words contract code_bytes data_bytes bss_bytes setup loop).length = 14 := rfl
  have hword : ∀ i (hi : i < 14), word32_le ((header ((header_words contract code_bytes data_bytes
      bss_bytes setup loop).flatMap bytes32_le) payload).drop (8 + 4 * i))
        = (header_words contract code_bytes data_bytes bss_bytes setup loop)[i] :=
    fun i hi => header_word payload hwords hi
  obtain ⟨hmagic, hversion, hsize⟩ := header_start payload
    ((header_words contract code_bytes data_bytes bss_bytes setup loop).flatMap bytes32_le)
  obtain ⟨_, hhash, hzeros⟩ := header_digests payload hcount
  refine ⟨hmagic, hversion, hsize, hword 0 (by decide), hword 1 (by decide), hword 2 (by decide),
    hword 3 (by decide), hword 4 (by decide), hword 5 (by decide), hword 6 (by decide),
    hword 7 (by decide), hword 8 (by decide), hword 9 (by decide), hword 10 (by decide),
    hword 11 (by decide), ⟨hword 12 (by decide), hword 13 (by decide)⟩, rfl, rfl, hcode, hcode4, ?_,
    hsetup, hloop, hdata4, hbss4, ?_, ?_, ?_, ?_, hhash⟩
  · simp only [kCodeOffset]
    omega
  · simp only
    omega
  · simp only
    omega
  · simp only
    omega
  · intro b hb
    have hmem := List.mem_of_mem_take hb
    rw [Stateful.kHeaderBytes, hzeros] at hmem
    exact List.eq_of_mem_replicate hmem

/-! ## Every capsule that is built -/

/-- What `module_capsule` returns. -/
structure Built (data : List Byte) (contract : Contract) (capsule : List Byte) (facts : Facts)
    (initialized : List Byte) : Prop where
  section_data : ∃ elf data_section, Elf.read data = .ok elf ∧ elf.get ".data" = .ok data_section ∧
    Elf.section_bytes data data_section = .ok initialized
  capsule : ∃ code, facts.codeBytes = code.length ∧ capsule = header ((header_words contract code.length
    initialized.length facts.bssBytes facts.setupAddress facts.loopAddress).flatMap bytes32_le)
      (code ++ initialized) ++ (code ++ initialized)
  words : ∀ w ∈ header_words contract facts.codeBytes initialized.length facts.bssBytes
    facts.setupAddress facts.loopAddress, w < 2 ^ 32
  data_bytes : facts.dataBytes = initialized.length
  code_pos : 0 < facts.codeBytes
  code_words : facts.codeBytes % 4 = 0
  data_words : facts.dataBytes % 4 = 0
  bss_words : facts.bssBytes % 4 = 0
  state : facts.dataBytes + facts.bssBytes ≤ contract.state_capacity_bytes
  total : 256 + facts.codeBytes + facts.dataBytes ≤ contract.maximum_capsule_bytes
  setup : Stateful.entry facts.setupAddress facts.codeBytes = true
  loop : Stateful.entry facts.loopAddress facts.codeBytes = true

/-- A capsule that is built has passed every check on the way. -/
theorem module_capsule_built {data : List Byte} {contract : Contract} {capsule : List Byte} {facts : Facts}
    (h : module_capsule data contract = .ok (capsule, facts)) :
    ∃ initialized, Built data contract capsule facts initialized := by
  simp only [module_capsule, bind_eq_ok, pure_eq_ok, raise_if_eq_ok] at h
  obtain ⟨elf, helf, _, _, _, _, text, htext, data_section, hdata, bss, hbss, code, hcode, initialized,
    hinit, _, hextent, loads, hloads, _, hsame, setup, hsetup, loop, hloop, packed, hpacked, hreturn⟩ := h
  obtain ⟨rfl, rfl⟩ := Prod.mk.inj hreturn
  obtain ⟨hwords, rfl⟩ := pack_words_ok hpacked
  simp only [Bool.or_eq_false_iff, decide_eq_false_iff_not, not_not, not_lt, ne_eq, gt_iff_lt,
    List.isEmpty_eq_false_iff] at hextent
  obtain ⟨⟨⟨⟨⟨⟨⟨⟨htext_at, hne⟩, hcode4⟩, hdata_at⟩, hbss_at⟩, hdata4⟩, hbss4⟩, hstate⟩, htotal⟩ := hextent
  exact ⟨initialized, ⟨elf, data_section, helf, hdata, hinit⟩, ⟨code, rfl, rfl⟩, hwords, rfl,
    List.length_pos_iff.mpr hne, hcode4, hdata4, hbss4, hstate, htotal, entry_ok hsetup, entry_ok hloop⟩

/-- The device takes it, with the extents and entries of the facts. -/
theorem Built.valid {data : List Byte} {contract : Contract} {capsule : List Byte} {facts : Facts}
    {initialized : List Byte} (h : Built data contract capsule facts initialized)
    (hcontract : Stateful.valid_contract contract = true) :
    Stateful.validate_image (some capsule) capsule.length contract = .ok
      ⟨256 + facts.codeBytes + facts.dataBytes, facts.codeBytes, facts.setupAddress, facts.loopAddress,
        256 + facts.codeBytes, facts.dataBytes, facts.bssBytes⟩ := by
  obtain ⟨code, hcode, hcapsule⟩ := h.capsule
  have hlength := header_length (code ++ initialized) (header_words contract code.length
    initialized.length facts.bssBytes facts.setupAddress facts.loopAddress) rfl
  have htotal : capsule.length = 256 + facts.codeBytes + facts.dataBytes := by
    rw [hcapsule, List.length_append, hlength, List.length_append, hcode, h.data_bytes, Nat.add_assoc]
  have hfirst : capsule.take kCodeOffset = header ((header_words contract code.length
      initialized.length facts.bssBytes facts.setupAddress facts.loopAddress).flatMap bytes32_le)
        (code ++ initialized) := by
    rw [hcapsule, kCodeOffset, ← hlength, List.take_left]
  have hrest : (capsule.drop kCodeOffset).take (256 + facts.codeBytes + facts.dataBytes - kCodeOffset)
      = code ++ initialized := by
    rw [hcapsule, kCodeOffset, ← hlength, List.drop_left, List.take_of_length_le]
    rw [List.length_append, hlength, hcode, h.data_bytes]
    omega
  have hdata := h.data_bytes
  have hwords := h.words
  have hheader := header_valid (code ++ initialized) (by rwa [← hdata] at hwords) h.code_pos h.code_words
    h.data_words h.bss_words h.state h.total h.setup h.loop
  rw [Stateful.validate_image_eq_ok]
  refine ⟨hcontract, ?_, ?_, ?_, htotal, ?_⟩
  · rw [htotal, kCodeOffset]
    omega
  · rw [htotal]
    exact h.total
  · rw [hfirst, ← hcode, ← hdata]
    exact hheader
  · rw [hrest, hfirst, (header_digests (code ++ initialized) rfl).1]

/-- **Every capsule that the builder emits is one the device accepts, with the same meaning.** For
every byte string and every valid contract: if `module_capsule` returns a capsule, the device's
validator takes it with the sizes and entries of the facts, and a generation that begins with it
finds the ELF's `.data` in the arena, and zeros up to its end. -/
theorem built_capsules_accepted (data : List Byte) (contract : Contract)
    (hcontract : Stateful.valid_contract contract = true) (capsule : List Byte) (facts : Facts)
    (hbuilt : module_capsule data contract = .ok (capsule, facts)) :
    ∃ info, Stateful.validate_image (some capsule) capsule.length contract = .ok info ∧
      info.code_bytes = facts.codeBytes ∧ info.data_bytes = facts.dataBytes ∧
      info.bss_bytes = facts.bssBytes ∧ info.setup_address = facts.setupAddress ∧
      info.loop_address = facts.loopAddress ∧
      ∃ elf data_section initialized, Elf.read data = .ok elf ∧ elf.get ".data" = .ok data_section ∧
        Elf.section_bytes data data_section = .ok initialized ∧
        ∀ (g : Stateful.Generation) (generation : ℕ), g.Ready contract generation →
          (g.begin (some capsule) capsule.length contract generation false).1 = .ok info ∧
          (g.begin (some capsule) capsule.length contract generation false).2.arena.data
            = some (initialized
              ++ List.replicate (contract.state_capacity_bytes - initialized.length) 0) := by
  obtain ⟨initialized, h⟩ := module_capsule_built hbuilt
  obtain ⟨elf, data_section, hread, hget, hbytes⟩ := h.section_data
  have hvalid := h.valid hcontract
  refine ⟨_, hvalid, rfl, rfl, rfl, rfl, rfl, elf, data_section, initialized, hread, hget, hbytes, ?_⟩
  intro g generation hready
  rw [hready.begin hvalid]
  refine ⟨rfl, ?_⟩
  -- the data is what the capsule ends with
  obtain ⟨code, hcode, hcapsule⟩ := h.capsule
  have hlength := header_length (code ++ initialized) (header_words contract code.length
    initialized.length facts.bssBytes facts.setupAddress facts.loopAddress) rfl
  have hdata : (capsule.drop (256 + facts.codeBytes)).take facts.dataBytes = initialized := by
    rw [← List.drop_drop, hcapsule, ← hlength, List.drop_left, hcode, List.drop_left, h.data_bytes,
      List.take_length]
  simp only [Stateful.initial_arena, hdata]

/-- A linked module: four bytes of code with both entries, four of data and four of zeroed data. -/
def sample_elf : List Byte :=
  let words (ws : List ℕ) := ws.flatMap bytes32_le
  let halves (ws : List ℕ) := ws.flatMap bytes16_le
  -- the header, then two segments
  [0x7f, 0x45, 0x4c, 0x46, 1, 1, 1, 0] ++ List.replicate 8 0 ++ halves [2, 40]
    ++ words [1, 0, 52, 260, 0x05000000] ++ halves [52, 32, 2, 40, 7, 6]
    ++ words [1, 116, CODE_ADDRESS, CODE_ADDRESS, 4, 4, 5, 4]
    ++ words [1, 120, 0x20001000, CODE_ADDRESS + 4, 4, 8, 6, 4]
    -- code, data and the two string tables
    ++ [0, 0xbf, 0xfe, 0xe7] ++ [1, 2, 3, 4]
    ++ [0] ++ ascii "firmingo_sketch_setup" ++ [0] ++ ascii "firmingo_sketch_loop" ++ [0]
    ++ [0] ++ ascii ".text" ++ [0] ++ ascii ".data" ++ [0] ++ ascii ".bss" ++ [0] ++ ascii ".symtab"
    ++ [0] ++ ascii ".strtab" ++ [0] ++ ascii ".shstrtab" ++ [0]
    -- the symbols and the sections
    ++ List.replicate 16 0
    ++ words [1, CODE_ADDRESS + 1, 4] ++ [0x12, 0] ++ halves [1]
    ++ words [23, CODE_ADDRESS + 1, 4] ++ [0x12, 0] ++ halves [1]
    ++ words (List.replicate 10 0)
    ++ words [1, 1, 6, CODE_ADDRESS, 116, 4, 0, 0, 4, 0]
    ++ words [7, 1, 3, 0x20001000, 120, 4, 0, 0, 4, 0]
    ++ words [13, 8, 3, 0x20001004, 124, 4, 0, 0, 4, 0]
    ++ words [18, 2, 0, 0, 212, 48, 5, 1, 4, 16]
    ++ words [26, 3, 0, 0, 124, 44, 0, 0, 1, 0]
    ++ words [34, 3, 0, 0, 168, 44, 0, 0, 1, 0]

/-- The module is built, and the device takes the capsule with its four bytes of data. -/
theorem built_capsules_accepted_sample :
    ∃ capsule facts info, module_capsule sample_elf sample_contract = .ok (capsule, facts) ∧
      Stateful.validate_image (some capsule) capsule.length sample_contract = .ok info ∧
      info.data_bytes = facts.dataBytes := by
  obtain ⟨⟨capsule, facts⟩, hbuilt⟩ := exists_of_isOk
    (show (module_capsule sample_elf sample_contract).isOk = true by decide +kernel)
  obtain ⟨info, hvalid, _, hdata, _⟩ := built_capsules_accepted sample_elf sample_contract (by decide)
    capsule facts hbuilt
  exact ⟨capsule, facts, info, hbuilt, hvalid, hdata⟩

end Firmingo.Managed.Builder
