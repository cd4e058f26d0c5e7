/-
What the two image validators accept.

Both formats are a header of 256 bytes and the bytes its hash covers. Each `validate_image`
is a chain of tests that reads the header field by field; here each is taken apart once:
what it demands of the header alone, how long the rest has to be, and the hash. Where the
same capsule is read from another buffer, only the last two can differ.

The stage is taken apart in the same way: announcing a capsule, appending it piece by piece
and finishing succeeds at every step if and only if the capsule is a valid image of exactly
the announced size.
-/
import Firmingo.Endpoint
import Firmingo.Install
import Firmingo.StatefulImage

set_option autoImplicit false

open Octets

namespace Firmingo.Managed

/-! ## Reading inside the header -/

theorem word16_le_take (b : List Byte) {n i : ℕ} (hi : i + 2 ≤ n) :
    word16_le ((b.take n).drop i) = word16_le (b.drop i) := by
  simp only [word16_le, getD_drop]
  rw [getD_take_of_lt b (by omega), getD_take_of_lt b (by omega)]

theorem word32_le_take (b : List Byte) {n i : ℕ} (hi : i + 4 ≤ n) :
    word32_le ((b.take n).drop i) = word32_le (b.drop i) := by
  simp only [word32_le, getD_drop]
  rw [getD_take_of_lt b (by omega), getD_take_of_lt b (by omega), getD_take_of_lt b (by omega),
    getD_take_of_lt b (by omega)]

/-- A field of the header, read from the whole image. -/
theorem take_drop_take (b : List Byte) {n i k : ℕ} (hi : i + k ≤ n) :
    ((b.take n).drop i).take k = (b.drop i).take k := by
  rw [List.drop_take, List.take_take, min_eq_left (by omega)]

theorem any_ne_zero_eq_false {b : List Byte} : (b.any (· ≠ 0)) = false ↔ ∀ x ∈ b, x = 0 := by
  simp

/-- A chain of checks passes if every check does. -/
theorem check_eq_ok {ε α : Type} {p : Prop} [Decidable p] {e : ε} {x : Except ε α} {v : α} :
    (if p then .error e else x) = .ok v ↔ ¬ p ∧ x = .ok v := by
  by_cases h : p
  · simp [h]
  · simp [h]

theorem exists_of_isOk {ε α : Type} {x : Except ε α} (h : x.isOk = true) : ∃ a, x = .ok a := by
  cases x with
  | error e => cases h
  | ok a => exact ⟨a, rfl⟩

/-! ## FMS1 -/

/-- What `validate_image` asks of the first 256 bytes. -/
structure Header (h : List Byte) (api : ℕ) (info : ImageInfo) : Prop where
  magic : h.take 4 = ascii "FMS1"
  abi : word16_le (h.drop 4) = kAbiVersion
  header_bytes : word16_le (h.drop 6) = kHeaderBytes
  board : word32_le (h.drop 8) = kNanoBoardTag
  api : word32_le (h.drop 12) = api
  code_address : word32_le (h.drop 16) = kSlotAddress + kCodeOffset
  code_bytes : word32_le (h.drop 20) = info.code_bytes
  setup : word32_le (h.drop 24) = info.setup_address
  loop : word32_le (h.drop 28) = info.loop_address
  code_pos : 0 < info.code_bytes
  code_le : info.code_bytes ≤ kSlotBytes - kCodeOffset
  setup_in : entry_in_code info.setup_address (kSlotAddress + kCodeOffset) info.code_bytes = true
  loop_in : entry_in_code info.loop_address (kSlotAddress + kCodeOffset) info.code_bytes = true
  padding : ∀ b ∈ (h.drop kHeaderBytes).take (kCodeOffset - kHeaderBytes), b = 0

/-- The header says what the image is. -/
theorem Header.info_eq {h : List Byte} {api api' : ℕ} {info info' : ImageInfo}
    (hh : Header h api info) (hh' : Header h api' info') : info' = info := by
  obtain ⟨code, setup, loop⟩ := info
  obtain ⟨code', setup', loop'⟩ := info'
  have hcode := hh'.code_bytes.symm.trans hh.code_bytes
  have hsetup := hh'.setup.symm.trans hh.setup
  have hloop := hh'.loop.symm.trans hh.loop
  simp only at hcode hsetup hloop
  rw [hcode, hsetup, hloop]

/-- **An accepted FMS1 image**: its header, enough bytes behind it, and their hash. -/
theorem validate_image_eq_ok (image : List Byte) (available api : ℕ) (info : ImageInfo) :
    validate_image (some image) available api = .ok info ↔
      kCodeOffset ≤ available ∧ Header (image.take kCodeOffset) api info ∧
        info.code_bytes ≤ available - kCodeOffset ∧
        sha256 ((image.drop kCodeOffset).take info.code_bytes)
          = ((image.take kCodeOffset).drop 32).take 32 := by
  have h16 : ∀ {i}, i + 2 ≤ kCodeOffset →
      word16_le ((image.take kCodeOffset).drop i) = word16_le (image.drop i) :=
    fun hi => word16_le_take image hi
  have h32 : ∀ {i}, i + 4 ≤ kCodeOffset →
      word32_le ((image.take kCodeOffset).drop i) = word32_le (image.drop i) :=
    fun hi => word32_le_take image hi
  have hmagic : (image.take kCodeOffset).take 4 = image.take 4 := by
    rw [List.take_take, min_eq_left (by decide)]
  have hdigest : ((image.take kCodeOffset).drop 32).take 32 = (image.drop 32).take 32 :=
    take_drop_take image (by decide)
  have hpadding : ((image.take kCodeOffset).drop kHeaderBytes).take (kCodeOffset - kHeaderBytes)
      = (image.drop kHeaderBytes).take (kCodeOffset - kHeaderBytes) :=
    take_drop_take image (by decide)
  simp only [validate_image, check_eq_ok, ne_eq, not_not, not_lt, Bool.or_eq_true, decide_eq_true_eq,
    not_or, Bool.not_eq_true', Bool.not_eq_false, Bool.not_eq_true, any_ne_zero_eq_false]
  constructor
  · rintro ⟨hroom, magic, abi, header, board, hapi, address, ⟨hpos, hle⟩, ⟨hsetup, hloop⟩, padding,
      hfits, hhash, hinfo⟩
    cases hinfo
    refine ⟨hroom, ⟨hmagic.trans magic, (h16 (by decide)).trans abi, (h16 (by decide)).trans header,
      (h32 (by decide)).trans board, (h32 (by decide)).trans hapi, (h32 (by decide)).trans address,
      h32 (by decide), h32 (by decide), h32 (by decide), Nat.pos_of_ne_zero hpos, hle, hsetup, hloop,
      ?_⟩, hfits, hhash.trans hdigest.symm⟩
    rw [hpadding]
    exact padding
  · rintro ⟨hroom, hh, hfits, hhash⟩
    have hcode := (h32 (by decide)).symm.trans hh.code_bytes
    have hsetup := (h32 (by decide)).symm.trans hh.setup
    have hloop := (h32 (by decide)).symm.trans hh.loop
    rw [hcode, hsetup, hloop, ← hdigest, ← hpadding]
    exact ⟨hroom, hmagic.symm.trans hh.magic, (h16 (by decide)).symm.trans hh.abi,
      (h16 (by decide)).symm.trans hh.header_bytes, (h32 (by decide)).symm.trans hh.board,
      (h32 (by decide)).symm.trans hh.api, (h32 (by decide)).symm.trans hh.code_address,
      ⟨hh.code_pos.ne', hh.code_le⟩, ⟨hh.setup_in, hh.loop_in⟩, hh.padding, hfits, hhash, rfl⟩

/-! ## Staging -/

namespace CapsuleStage

/-- The pieces of a capsule, appended one after the other. -/
def appends (s : CapsuleStage) (owner : UInt32) (offset : ℕ) :
    List (List Byte) → List StageResult × CapsuleStage
  | [] => ([], s)
  | piece :: pieces =>
    let (result, s) := s.append owner offset piece
    let (results, s) := s.appends owner (offset + piece.length) pieces
    (result :: results, s)

/-- A capsule announced to a fresh stage with its size and digest, appended and finished. -/
def staging (owner : UInt32) (api : ℕ) (capsule : List Byte) (pieces : List (List Byte)) :
    List StageResult × CapsuleStage :=
  let (begun, s) := clear.begin owner true capsule.length (sha256 capsule) api
  let (results, s) := s.appends owner 0 pieces
  let (finished, s) := s.finish owner
  (begun :: results ++ [finished], s)

/-- The stage returns `ok` at every step. -/
def Stages (owner : UInt32) (api : ℕ) (capsule : List Byte) (pieces : List (List Byte)) : Prop :=
  ∀ result ∈ (staging owner api capsule pieces).1, result = .ok

/-- A stage that was announced `capsule` and holds its first bytes. -/
structure Holds (s : CapsuleStage) (owner : UInt32) (api : ℕ) (capsule : List Byte) (n : ℕ) : Prop where
  owner : s.owner = owner
  api : s.api_address = api
  expected : s.expected_bytes = capsule.length
  digest : s.expected_digest = sha256 capsule
  received : s.received = n
  verified : s.verified = false
  room : s.bytes.length = kProofStageBytes
  held : s.bytes.take n = capsule.take n

section

variable {owner : UInt32} {api : ℕ} {capsule : List Byte} {s : CapsuleStage} {n : ℕ}

/-- A piece is taken where the bytes so far end. -/
theorem Holds.append (h : s.Holds owner api capsule n) (howner : owner ≠ 0)
    (hle : capsule.length ≤ kProofStageBytes) {piece : List Byte} (hne : piece ≠ [])
    (hpiece : (capsule.drop n).take piece.length = piece) :
    (s.append owner n piece).1 = .ok ∧
      (s.append owner n piece).2.Holds owner api capsule (n + piece.length) := by
  have hpos := List.length_pos_iff.mpr hne
  have hlen : n + piece.length ≤ capsule.length := by
    have := congrArg List.length hpiece
    simp only [List.length_take, List.length_drop] at this
    omega
  have happend : s.append owner n piece = (.ok, { s with
      bytes := copy_at s.bytes s.received piece
      received := s.received + piece.length }) := by
    unfold CapsuleStage.append
    rw [if_neg (by simp [h.owner, howner, h.verified]), if_neg (by simp [h.owner]), if_neg hne,
      if_neg (by simp [h.received]), if_neg (by rw [h.expected, h.received]; omega)]
  rw [happend]
  refine ⟨rfl, h.owner, h.api, h.expected, h.digest, ?_, h.verified, ?_, ?_⟩
  · change s.received + piece.length = n + piece.length
    rw [h.received]
  · change (copy_at s.bytes s.received piece).length = _
    rw [h.received, copy_at_length _ _ (by rw [h.room]; omega), h.room]
  · change (copy_at s.bytes s.received piece).take (n + piece.length) = _
    -- the copy starts where the bytes held so far end
    rw [h.received, copy_at_take _ _ (by rw [h.room]; omega), h.held, List.take_add, hpiece]

/-- Every piece is taken. -/
theorem Holds.appends (howner : owner ≠ 0) (hle : capsule.length ≤ kProofStageBytes)
    {pieces : List (List Byte)} (hne : ∀ piece ∈ pieces, piece ≠ [])
    (h : s.Holds owner api capsule n) (hrest : capsule.drop n = pieces.flatten) :
    (∀ result ∈ (s.appends owner n pieces).1, result = .ok) ∧
      (s.appends owner n pieces).2.Holds owner api capsule (n + pieces.flatten.length) := by
  induction pieces generalizing s n with
  | nil =>
    refine ⟨?_, by simpa [CapsuleStage.appends] using h⟩
    intro result hmem
    cases hmem
  | cons piece pieces ih =>
    rw [List.flatten_cons] at hrest
    have hpiece : (capsule.drop n).take piece.length = piece := by
      rw [hrest, List.take_left]
    obtain ⟨hok, hnext⟩ := h.append howner hle (hne piece (by simp)) hpiece
    obtain ⟨hall, hlast⟩ := ih (fun p hp => hne p (by simp [hp])) hnext
      (by rw [← List.drop_drop, hrest, List.drop_left])
    rw [List.flatten_cons, List.length_append, ← Nat.add_assoc]
    refine ⟨?_, hlast⟩
    intro result hmem
    rcases List.mem_cons.mp hmem with rfl | hmem
    · exact hok
    · exact hall result hmem

/-- The whole capsule is held: it is taken if it is a valid image of its own size. -/
theorem Holds.finish (h : s.Holds owner api capsule capsule.length) (howner : owner ≠ 0) :
    (s.finish owner).1 = .ok ↔
      ∃ info, validate_image (some capsule) capsule.length api = .ok info ∧
        capsule.length = kCodeOffset + info.code_bytes := by
  have hcapsule : s.capsule = capsule := by
    rw [CapsuleStage.capsule, h.expected, h.held, List.take_length]
  unfold CapsuleStage.finish
  rw [if_neg (by simp [h.owner, howner, h.verified]), if_neg (by simp [h.owner]),
    if_neg (by simp [h.received, h.expected]), if_neg (by simp [hcapsule, h.digest]), hcapsule,
    h.expected, h.api]
  cases hvalid : validate_image (some capsule) capsule.length api with
  | error e => simp
  | ok info =>
    by_cases hsize : capsule.length = kCodeOffset + info.code_bytes
    · simp [hsize]
    · simp [hsize]

end

/-- **The stage takes exactly the valid images of their own size**, in whatever pieces they
come. -/
theorem stages_iff {owner : UInt32} {api : ℕ} (howner : owner ≠ 0) (hapi : api ≠ 0)
    {capsule : List Byte} {pieces : List (List Byte)} (hne : ∀ piece ∈ pieces, piece ≠ [])
    (hflat : pieces.flatten = capsule) :
    Stages owner api capsule pieces ↔
      kCodeOffset < capsule.length ∧ capsule.length ≤ kProofStageBytes ∧
      ∃ info, validate_image (some capsule) capsule.length api = .ok info ∧
        capsule.length = kCodeOffset + info.code_bytes := by
  unfold Stages staging
  by_cases hsize : kCodeOffset < capsule.length ∧ capsule.length ≤ kProofStageBytes
  · have hbegin : clear.begin owner true capsule.length (sha256 capsule) api
        = (.ok, { clear with
          owner := owner
          api_address := api
          expected_bytes := capsule.length
          expected_digest := sha256 capsule }) := by
      unfold CapsuleStage.begin
      rw [if_neg (by simp), if_neg (by simp [clear]), if_neg (by simp [howner, hapi, hsize])]
      rfl
    rw [hbegin]
    have hbegun : Holds { clear with
        owner := owner
        api_address := api
        expected_bytes := capsule.length
        expected_digest := sha256 capsule } owner api capsule 0 :=
      ⟨rfl, rfl, rfl, rfl, rfl, rfl, by simp [clear], rfl⟩
    obtain ⟨hall, hheld⟩ := hbegun.appends howner hsize.2 hne (by rw [List.drop_zero, hflat])
    rw [Nat.zero_add, hflat] at hheld
    simp only [hsize, true_and]
    -- the begin and the pieces always succeed, so the finish alone decides
    rw [← hheld.finish howner]
    constructor
    · intro h
      exact h _ (by simp)
    · intro h result hmem
      rcases List.mem_append.mp hmem with hmem | hmem
      · rcases List.mem_cons.mp hmem with rfl | hmem
        · rfl
        · exact hall result hmem
      · rw [List.mem_singleton.mp hmem]
        exact h
  · refine iff_of_false ?_ (by tauto)
    intro h
    have hbegin : (clear.begin owner true capsule.length (sha256 capsule) api).1
        = .invalid_argument := by
      unfold CapsuleStage.begin
      rw [if_neg (by simp), if_neg (by simp [clear]), if_pos]
      simp only [Bool.or_eq_true, decide_eq_true_eq]
      omega
    have hok := h (clear.begin owner true capsule.length (sha256 capsule) api).1 (by simp)
    rw [hbegin] at hok
    cases hok

end CapsuleStage

/-! ## FMS2 -/

namespace Stateful

/-- What `validate_image` asks of the first 256 bytes, their own hash included. -/
structure Header (h : List Byte) (contract : Contract) (info : ImageInfo) : Prop where
  magic : h.take 4 = ascii "FMS2"
  version : word16_le (h.drop 4) = kImageVersion
  header_bytes : word16_le (h.drop 6) = kHeaderBytes
  board : word32_le (h.drop 8) = kNanoBoardTag
  api : word32_le (h.drop 12) = contract.api_address
  code_address : word32_le (h.drop 16) = kSlotAddress + kCodeOffset
  code_bytes : word32_le (h.drop 20) = info.code_bytes
  setup : word32_le (h.drop 24) = info.setup_address
  loop : word32_le (h.drop 28) = info.loop_address
  state_address : word32_le (h.drop 32) = contract.state_address
  data_bytes : word32_le (h.drop 36) = info.data_bytes
  bss_address : word32_le (h.drop 40) = contract.state_address + info.data_bytes
  bss_bytes : word32_le (h.drop 44) = info.bss_bytes
  load : word32_le (h.drop 48) = info.data_load_offset
  total : word32_le (h.drop 52) = info.image_bytes
  reserved : word32_le (h.drop 56) = 0 ∧ word32_le (h.drop 60) = 0
  load_eq : info.data_load_offset = kCodeOffset + info.code_bytes
  total_eq : info.image_bytes = info.data_load_offset + info.data_bytes
  code_pos : 0 < info.code_bytes
  code_words : info.code_bytes % 4 = 0
  code_le : info.code_bytes ≤ contract.maximum_capsule_bytes - kCodeOffset
  setup_in : entry info.setup_address info.code_bytes = true
  loop_in : entry info.loop_address info.code_bytes = true
  data_words : info.data_bytes % 4 = 0
  bss_words : info.bss_bytes % 4 = 0
  data_le : info.data_bytes ≤ contract.state_capacity_bytes
  bss_le : info.bss_bytes ≤ contract.state_capacity_bytes - info.data_bytes
  total_le : info.data_bytes ≤ contract.maximum_capsule_bytes - info.data_load_offset
  padding : ∀ b ∈ (h.drop kHeaderBytes).take (kCodeOffset - kHeaderBytes), b = 0
  hash : sha256 (h.take 96) = (h.drop 96).take 32

/-- The header says what the image is. -/
theorem Header.info_eq {h : List Byte} {contract contract' : Contract} {info info' : ImageInfo}
    (hh : Header h contract info) (hh' : Header h contract' info') : info' = info := by
  obtain ⟨total, code, setup, loop, load, data, bss⟩ := info
  obtain ⟨total', code', setup', loop', load', data', bss'⟩ := info'
  have htotal := hh'.total.symm.trans hh.total
  have hcode := hh'.code_bytes.symm.trans hh.code_bytes
  have hsetup := hh'.setup.symm.trans hh.setup
  have hloop := hh'.loop.symm.trans hh.loop
  have hload := hh'.load.symm.trans hh.load
  have hdata := hh'.data_bytes.symm.trans hh.data_bytes
  have hbss := hh'.bss_bytes.symm.trans hh.bss_bytes
  simp only at htotal hcode hsetup hloop hload hdata hbss
  rw [htotal, hcode, hsetup, hloop, hload, hdata, hbss]

/-- **An accepted FMS2 image**: its header, exactly the announced size, and the hash of what
follows the header. -/
theorem validate_image_eq_ok (image : List Byte) (size : ℕ) (contract : Contract) (info : ImageInfo) :
    validate_image (some image) size contract = .ok info ↔
      valid_contract contract = true ∧ kCodeOffset ≤ size ∧ size ≤ contract.maximum_capsule_bytes ∧
        Header (image.take kCodeOffset) contract info ∧ size = info.image_bytes ∧
        sha256 ((image.drop kCodeOffset).take (info.image_bytes - kCodeOffset))
          = ((image.take kCodeOffset).drop 64).take 32 := by
  have h16 : ∀ {i}, i + 2 ≤ kCodeOffset →
      word16_le ((image.take kCodeOffset).drop i) = word16_le (image.drop i) :=
    fun hi => word16_le_take image hi
  have h32 : ∀ {i}, i + 4 ≤ kCodeOffset →
      word32_le ((image.take kCodeOffset).drop i) = word32_le (image.drop i) :=
    fun hi => word32_le_take image hi
  have hmagic : (image.take kCodeOffset).take 4 = image.take 4 := by
    rw [List.take_take, min_eq_left (by decide)]
  have hfirst : (image.take kCodeOffset).take 96 = image.take 96 := by
    rw [List.take_take, min_eq_left (by decide)]
  have hown : ((image.take kCodeOffset).drop 96).take 32 = (image.drop 96).take 32 :=
    take_drop_take image (by decide)
  have hdigest : ((image.take kCodeOffset).drop 64).take 32 = (image.drop 64).take 32 :=
    take_drop_take image (by decide)
  have hpadding : ((image.take kCodeOffset).drop kHeaderBytes).take (kCodeOffset - kHeaderBytes)
      = (image.drop kHeaderBytes).take (kCodeOffset - kHeaderBytes) :=
    take_drop_take image (by decide)
  simp only [validate_image, check_eq_ok, ne_eq, not_not, not_lt, Bool.or_eq_true, decide_eq_true_eq,
    not_or, Bool.not_eq_true', Bool.not_eq_false, Bool.not_eq_true, any_ne_zero_eq_false, gt_iff_lt]
  constructor
  · rintro ⟨hcontract, hroom, hmax, magic, version, header, board, hapi, address, ⟨⟨hpos, hwords⟩, hle⟩,
      ⟨hsetup, hloop⟩, ⟨⟨⟨⟨⟨hstate, hdata⟩, hbss⟩, hdata_le⟩, hbss_le⟩, hbss_at⟩, ⟨hload, htotal_le⟩,
      ⟨htotal, hsize⟩, hreserved, padding, hhash, hpayload, hinfo⟩
    cases hinfo
    refine ⟨hcontract, hroom, hmax, ⟨hmagic.trans magic, (h16 (by decide)).trans version,
      (h16 (by decide)).trans header, (h32 (by decide)).trans board, (h32 (by decide)).trans hapi,
      (h32 (by decide)).trans address, h32 (by decide), h32 (by decide), h32 (by decide),
      (h32 (by decide)).trans hstate, h32 (by decide), (h32 (by decide)).trans hbss_at, h32 (by decide),
      (h32 (by decide)).trans hload, (h32 (by decide)).trans htotal,
      ⟨(h32 (by decide)).trans hreserved.1, (h32 (by decide)).trans hreserved.2⟩, rfl, rfl,
      Nat.pos_of_ne_zero hpos, hwords, hle, hsetup, hloop, hdata, hbss, hdata_le, hbss_le, htotal_le,
      ?_, ?_⟩, hsize, hpayload.trans hdigest.symm⟩
    · rw [hpadding]
      exact padding
    · rw [hfirst, hown]
      exact hhash
  · rintro ⟨hcontract, hroom, hmax, hh, hsize, hpayload⟩
    have hcode := (h32 (by decide)).symm.trans hh.code_bytes
    have hsetup := (h32 (by decide)).symm.trans hh.setup
    have hloop := (h32 (by decide)).symm.trans hh.loop
    have hdata := (h32 (by decide)).symm.trans hh.data_bytes
    have hbss := (h32 (by decide)).symm.trans hh.bss_bytes
    rw [hcode, hsetup, hloop, hdata, hbss, ← hdigest, ← hpadding, ← hfirst, ← hown, ← hh.load_eq,
      ← hh.total_eq]
    exact ⟨hcontract, hroom, hmax, hmagic.symm.trans hh.magic, (h16 (by decide)).symm.trans hh.version,
      (h16 (by decide)).symm.trans hh.header_bytes, (h32 (by decide)).symm.trans hh.board,
      (h32 (by decide)).symm.trans hh.api, (h32 (by decide)).symm.trans hh.code_address,
      ⟨⟨hh.code_pos.ne', hh.code_words⟩, hh.code_le⟩, ⟨hh.setup_in, hh.loop_in⟩,
      ⟨⟨⟨⟨⟨(h32 (by decide)).symm.trans hh.state_address, hh.data_words⟩, hh.bss_words⟩, hh.data_le⟩,
        hh.bss_le⟩, (h32 (by decide)).symm.trans hh.bss_address⟩,
      ⟨(h32 (by decide)).symm.trans hh.load, hh.total_le⟩,
      ⟨(h32 (by decide)).symm.trans hh.total, hsize⟩,
      ⟨(h32 (by decide)).symm.trans hh.reserved.1, (h32 (by decide)).symm.trans hh.reserved.2⟩,
      hh.padding, hh.hash, hpayload, rfl⟩

end Stateful

end Firmingo.Managed
