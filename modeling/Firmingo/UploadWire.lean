/-
The raw upload: `UploadReceiver` of `experiments/managed_sketch/upload_wire.cpp`.

A receiver reads a 60-byte header, a capsule and the word `GO!!`, and drives a `CapsuleStage`
while it does. Each call of `feed` takes as much of its bytes as the phase wants, so a message may
come in any pieces. Here a call is shown to be the calls with its bytes one by one, and then the
receiver is followed byte by byte: it waits in one of the three phases, is ready, or has rejected,
and in that case no continuation of what it read is a message.
-/
import Firmingo.Boot

set_option autoImplicit false

open Octets

namespace Firmingo.Managed

/-! ## The receiver -/

def kUploadHeaderBytes : ℕ := 60

/-- `UploadStatus`. -/
inductive UploadStatus
  | receiving
  | ready
  | denied
  | invalid
  deriving DecidableEq, Repr

/-- The word that ends a message. -/
def commit : List Byte := ascii "GO!!"

/-- `UploadReceiver`, with its stage; `header` is what has come of the header. -/
structure UploadReceiver where
  stage : CapsuleStage
  owner : UInt32
  api_address : ℕ
  device_id : Option (List Byte)
  header : List Byte := []
  capsule_bytes : ℕ := 0
  expected_bytes : ℕ := 0
  commit_bytes : ℕ := 0
  status : UploadStatus := .receiving

namespace UploadReceiver

/-- `reject`. -/
def reject (r : UploadReceiver) (reason : UploadStatus) : UploadReceiver :=
  { r with stage := (r.stage.abort r.owner).2, status := reason }

/-- What `parse_header` asks of the header and the device. -/
def header_matches (header device_id : List Byte) : Bool :=
  header.take 4 = ascii "FMSU" && header.getD 4 0 = 1 && header.getD 5 0 = 0 && header.getD 6 0 = 0
    && header.getD 7 0 = 0 && device_id.length = 16 && (header.drop 44).take 16 = device_id

/-- `parse_header`, past the check that there is a device ID. -/
def parse_header_for (r : UploadReceiver) (authorized : Bool) (device_id : List Byte) :
    Bool × UploadReceiver :=
  if !authorized || r.owner = 0 then (false, r.reject .denied)
  else if !header_matches r.header device_id then (false, r.reject .invalid)
  else
    let r := { r with expected_bytes := word32_le (r.header.drop 8) }
    match r.stage.begin r.owner true r.expected_bytes ((r.header.drop 12).take 32) r.api_address with
    | (.ok, stage) => (true, { r with stage := stage })
    | (_, stage) => (false, { r with stage := stage }.reject .invalid)

/-- `parse_header`. -/
def parse_header (r : UploadReceiver) (authorized : Bool) : Bool × UploadReceiver :=
  match r.device_id with
  | none => (false, r.reject .denied)
  | some device_id => r.parse_header_for authorized device_id

/-- A turn of the loop of `feed` in the header: the receiver, and the bytes that are left. A turn
that returns leaves none. -/
def header_turn (r : UploadReceiver) (authorized : Bool) (bytes : List Byte) :
    UploadReceiver × List Byte :=
  let take := min bytes.length (kUploadHeaderBytes - r.header.length)
  let r := { r with header := r.header ++ bytes.take take }
  if r.header.length = kUploadHeaderBytes then
    match r.parse_header authorized with
    | (true, r) => (r, bytes.drop take)
    | (false, r) => (r, [])
  else (r, bytes.drop take)

/-- A turn in the capsule. -/
def capsule_turn (r : UploadReceiver) (bytes : List Byte) : UploadReceiver × List Byte :=
  let take := min bytes.length (r.expected_bytes - r.capsule_bytes)
  match r.stage.append r.owner r.capsule_bytes (bytes.take take) with
  | (.ok, stage) =>
    let r := { r with stage := stage, capsule_bytes := r.capsule_bytes + take }
    if r.capsule_bytes = r.expected_bytes then
      match r.stage.finish r.owner with
      | (.ok, stage) => ({ r with stage := stage }, bytes.drop take)
      | (_, stage) => ({ r with stage := stage }.reject .invalid, [])
    else (r, bytes.drop take)
  | (_, stage) => ({ r with stage := stage }.reject .invalid, [])

/-- A turn in the last word, with at least one byte. -/
def commit_turn (r : UploadReceiver) (authorized : Bool) (byte : Byte) (rest : List Byte) :
    UploadReceiver × List Byte :=
  if !authorized then (r.reject .denied, [])
  else
    let wanted := commit.getD r.commit_bytes 0
    let r := { r with commit_bytes := r.commit_bytes + 1 }
    if byte ≠ wanted then (r.reject .invalid, [])
    else
      let r := if r.commit_bytes = 4 then { r with status := .ready } else r
      if r.status = .ready && rest ≠ [] then (r.reject .invalid, []) else (r, rest)

/-- A turn. -/
def turn (r : UploadReceiver) (authorized : Bool) (byte : Byte) (rest : List Byte) :
    UploadReceiver × List Byte :=
  if r.header.length < kUploadHeaderBytes then r.header_turn authorized (byte :: rest)
  else if r.capsule_bytes < r.expected_bytes then r.capsule_turn (byte :: rest)
  else r.commit_turn authorized byte rest

/-- The loop of `feed`; every turn takes a byte, so the number of bytes is fuel enough. -/
def feed_loop (authorized : Bool) : ℕ → UploadReceiver → List Byte → UploadReceiver
  | 0, r, _ => r
  | _ + 1, r, [] => r
  | fuel + 1, r, byte :: rest =>
    let (r, bytes) := r.turn authorized byte rest
    feed_loop authorized fuel r bytes

/-- `feed`. -/
def feed (authorized : Bool) (r : UploadReceiver) (bytes : List Byte) : UploadReceiver :=
  if r.status ≠ .receiving then
    if bytes ≠ [] && r.status = .ready then r.reject .invalid else r
  else feed_loop authorized bytes.length r bytes

/-! ## The loop -/

section Loop

variable (r : UploadReceiver) (authorized : Bool)

theorem feed_loop_nil (fuel : ℕ) : feed_loop authorized fuel r [] = r := by
  cases fuel <;> rfl

/-- A turn takes at least one byte. -/
theorem turn_length (byte : Byte) (rest : List Byte) : (r.turn authorized byte rest).2.length ≤ rest.length := by
  have hdrop : ∀ n, 0 < n → ((byte :: rest).drop (min (byte :: rest).length n)).length ≤ rest.length := by
    intro n hn
    rw [List.length_drop, List.length_cons]
    omega
  unfold turn
  split
  · next hheader =>
    unfold header_turn
    simp only
    split
    · split
      · exact hdrop _ (by omega)
      · exact Nat.zero_le _
    · exact hdrop _ (by omega)
  · split
    · next hcapsule =>
      unfold capsule_turn
      simp only
      split
      · split
        · split
          · exact hdrop _ (by omega)
          · exact Nat.zero_le _
        · exact hdrop _ (by omega)
      · exact Nat.zero_le _
    · unfold commit_turn
      simp only
      split_ifs <;> first | exact Nat.zero_le _ | exact le_refl _

/-- More fuel than bytes changes nothing. -/
theorem feed_loop_fuel (m n : ℕ) (bytes : List Byte) (hm : bytes.length ≤ m) (hn : bytes.length ≤ n) :
    feed_loop authorized m r bytes = feed_loop authorized n r bytes := by
  induction m generalizing n r bytes with
  | zero =>
    obtain rfl := List.length_eq_zero_iff.mp (Nat.le_zero.mp hm)
    rw [feed_loop_nil, feed_loop_nil]
  | succ m ih =>
    cases bytes with
    | nil => rw [feed_loop_nil, feed_loop_nil]
    | cons byte rest =>
      cases n with
      | zero => simp at hn
      | succ n =>
        have hturn := turn_length r authorized byte rest
        rw [List.length_cons] at hm hn
        exact ih (r.turn authorized byte rest).1 n (r.turn authorized byte rest).2
          (hturn.trans (by omega)) (hturn.trans (by omega))

theorem feed_nil : r.feed authorized [] = r := by
  unfold feed
  split
  · rfl
  · rfl

variable {r authorized}

/-- The first turn, and the rest of the loop. -/
theorem feed_cons (h : r.status = .receiving) (byte : Byte) (rest : List Byte) :
    r.feed authorized (byte :: rest) =
      feed_loop authorized (r.turn authorized byte rest).2.length (r.turn authorized byte rest).1
        (r.turn authorized byte rest).2 := by
  unfold feed
  rw [if_neg (by simp [h])]
  exact feed_loop_fuel _ _ _ _ _ (turn_length r authorized byte rest) (le_refl _)

/-- One byte is one turn. -/
theorem feed_byte (h : r.status = .receiving) (byte : Byte) :
    r.feed authorized [byte] = (r.turn authorized byte []).1 := by
  rw [feed_cons h]
  have hnone := turn_length r authorized byte []
  rw [List.length_eq_zero_iff.mp (Nat.le_zero.mp hnone), feed_loop_nil]

theorem feed_receiving (h : r.status = .receiving) (bytes : List Byte) :
    r.feed authorized bytes = feed_loop authorized bytes.length r bytes := by
  unfold feed
  rw [if_neg (by simp [h])]

/-- A receiver that has rejected takes no notice. -/
theorem feed_rejected (h : r.status = .denied ∨ r.status = .invalid) (bytes : List Byte) :
    r.feed authorized bytes = r := by
  unfold feed
  rcases h with h | h
  · rw [if_pos (by simp [h]), if_neg (by simp [h])]
  · rw [if_pos (by simp [h]), if_neg (by simp [h])]

/-- A receiver that is ready takes no more bytes. -/
theorem feed_ready (h : r.status = .ready) (byte : Byte) (rest : List Byte) :
    r.feed authorized (byte :: rest) = r.reject .invalid := by
  unfold feed
  rw [if_pos (by simp [h]), if_pos (by simp [h])]

end Loop

/-- What a turn takes of its bytes, and what it leaves. -/
theorem take_min_length (bytes : List Byte) (n : ℕ) : bytes.take (min bytes.length n) = bytes.take n := by
  rw [min_comm, ← List.take_eq_take_min]

theorem drop_min_length (bytes : List Byte) (n : ℕ) : bytes.drop (min bytes.length n) = bytes.drop n := by
  rcases le_total bytes.length n with hle | hle
  · rw [min_eq_left hle, List.drop_of_length_le (le_refl _), List.drop_of_length_le hle]
  · rw [min_eq_right hle]

/-! ## The header -/

section Header

variable {r : UploadReceiver} {authorized : Bool}

/-- `reject` keeps a stage of another owner. -/
theorem abort_other {s : CapsuleStage} {owner : UInt32} (h : s.owner ≠ owner) : (s.abort owner).2 = s := by
  unfold CapsuleStage.abort
  split
  · rfl
  · rw [if_pos (Ne.symm h)]

/-- The stage after a header that was taken. -/
def begun (r : UploadReceiver) : UploadReceiver :=
  { r with
    expected_bytes := word32_le (r.header.drop 8)
    stage := { r.stage with
      owner := r.owner
      api_address := r.api_address
      expected_bytes := word32_le (r.header.drop 8)
      received := 0
      verified := false
      expected_digest := (r.header.drop 12).take 32 } }

/-- What makes a header acceptable. -/
structure Announces (r : UploadReceiver) (authorized : Bool) : Prop where
  device : ∃ device, r.device_id = some device ∧ header_matches r.header device = true
  authorized : authorized = true
  owner : r.owner ≠ 0
  free : r.stage.owner = 0
  size : kCodeOffset < word32_le (r.header.drop 8) ∧ word32_le (r.header.drop 8) ≤ kProofStageBytes
  api : r.api_address ≠ 0

theorem parse_header_announced (h : Announces r authorized) :
    r.parse_header authorized = (true, r.begun) := by
  obtain ⟨device, hdevice, hmatches⟩ := h.device
  rw [parse_header, hdevice]
  simp only [parse_header_for]
  rw [if_neg (by simp [h.authorized, h.owner]), if_neg (by simp [hmatches])]
  have hbegin : r.stage.begin r.owner true (word32_le (r.header.drop 8)) ((r.header.drop 12).take 32)
      r.api_address = (.ok, r.begun.stage) := by
    unfold CapsuleStage.begin
    have hsize := h.size
    rw [if_neg (by simp), if_neg (by simp [h.free]), if_neg]
    · rfl
    · simp only [Bool.or_eq_true, decide_eq_true_eq, not_or]
      exact ⟨⟨⟨h.owner, by omega⟩, by omega⟩, h.api⟩
  rw [hbegin]
  rfl

/-- A header that is not acceptable is rejected, and nothing is staged. -/
theorem parse_header_refused (h : ¬ Announces r authorized) :
    (r.parse_header authorized).1 = false ∧
      ((r.parse_header authorized).2.status = .denied ∨ (r.parse_header authorized).2.status = .invalid) ∧
      (r.parse_header authorized).2.stage = (r.stage.abort r.owner).2 := by
  rw [parse_header]
  cases hdevice : r.device_id with
  | none => exact ⟨rfl, .inl rfl, rfl⟩
  | some device =>
    simp only [parse_header_for]
    split
    · exact ⟨rfl, .inl rfl, rfl⟩
    · next hallowed =>
      simp only [Bool.or_eq_true, Bool.not_eq_true', decide_eq_true_eq, not_or, Bool.not_eq_false] at hallowed
      split
      · exact ⟨rfl, .inr rfl, rfl⟩
      · next hmatches =>
        simp only [Bool.not_eq_true', Bool.not_eq_false] at hmatches
        have hbegin : ∃ e, e ≠ StageResult.ok ∧ r.stage.begin r.owner true (word32_le (r.header.drop 8))
            ((r.header.drop 12).take 32) r.api_address = (e, r.stage) := by
          unfold CapsuleStage.begin
          by_cases hfree : r.stage.owner = 0
          · rw [if_neg (by simp), if_neg (by simp [hfree]), if_pos]
            · exact ⟨_, by simp, rfl⟩
            · simp only [Bool.or_eq_true, decide_eq_true_eq]
              by_contra hgood
              simp only [not_or, not_le, gt_iff_lt, not_lt] at hgood
              exact h ⟨⟨device, hdevice, hmatches⟩, hallowed.1, hallowed.2, hfree,
                ⟨hgood.1.1.2, hgood.1.2⟩, hgood.2⟩
          · rw [if_neg (by simp), if_pos (by simpa using hfree)]
            exact ⟨_, by simp, rfl⟩
        obtain ⟨e, hne, hbegin⟩ := hbegin
        rw [hbegin]
        cases e <;> first | exact absurd rfl hne | exact ⟨rfl, .inr rfl, rfl⟩

end Header

/-! ## The capsule -/

variable {bytes : List Byte}

section Capsule

variable {r : UploadReceiver} {authorized : Bool}

/-- The stage with more of the capsule. -/
def stored (s : CapsuleStage) (data : List Byte) : CapsuleStage :=
  { s with bytes := copy_at s.bytes s.received data, received := s.received + data.length }

theorem stored_append (s : CapsuleStage) (x y : List Byte) (h : s.received + x.length + y.length ≤ s.bytes.length) :
    stored (stored s x) y = stored s (x ++ y) := by
  simp only [stored, copy_at_append _ _ _ h, List.length_append, Nat.add_assoc]

/-- The receiver is in the capsule, and its stage is with it. -/
structure Staging (r : UploadReceiver) : Prop where
  owner : r.stage.owner = r.owner
  owned : r.owner ≠ 0
  verified : r.stage.verified = false
  received : r.stage.received = r.capsule_bytes
  expected : r.stage.expected_bytes = r.expected_bytes
  room : r.stage.bytes.length = kProofStageBytes
  fits : r.expected_bytes ≤ kProofStageBytes

/-- The receiver with more of the capsule. -/
def holding (r : UploadReceiver) (data : List Byte) : UploadReceiver :=
  { r with stage := stored r.stage data, capsule_bytes := r.capsule_bytes + data.length }

/-- The receiver after the last byte of the capsule, and what is left. -/
def finishing (r : UploadReceiver) (rest : List Byte) : UploadReceiver × List Byte :=
  match r.stage.finish r.owner with
  | (.ok, stage) => ({ r with stage := stage }, rest)
  | (_, stage) => ({ r with stage := stage }.reject .invalid, [])

/-- A turn in the capsule stores what there is of it, and finishes with the last byte. -/
theorem capsule_turn_eq (h : Staging r) (hmore : r.capsule_bytes < r.expected_bytes) (hne : bytes ≠ []) :
    r.capsule_turn bytes =
      if (r.holding (bytes.take (r.expected_bytes - r.capsule_bytes))).capsule_bytes = r.expected_bytes then
        (r.holding (bytes.take (r.expected_bytes - r.capsule_bytes))).finishing
          (bytes.drop (r.expected_bytes - r.capsule_bytes))
      else (r.holding (bytes.take (r.expected_bytes - r.capsule_bytes)),
        bytes.drop (r.expected_bytes - r.capsule_bytes)) := by
  have hpos := List.length_pos_iff.mpr hne
  have hlen : (bytes.take (r.expected_bytes - r.capsule_bytes)).length
      = min bytes.length (r.expected_bytes - r.capsule_bytes) := by
    rw [List.length_take, min_comm]
  have happend : r.stage.append r.owner r.capsule_bytes (bytes.take (r.expected_bytes - r.capsule_bytes))
      = (.ok, stored r.stage (bytes.take (r.expected_bytes - r.capsule_bytes))) := by
    unfold CapsuleStage.append
    rw [if_neg (by simp [h.owner, h.owned, h.verified]), if_neg (by simp [h.owner]), if_neg, if_neg, if_neg]
    · rfl
    · rw [hlen, h.expected, h.received]
      omega
    · simp [h.received]
    · intro hnil
      have := congrArg List.length hnil
      rw [hlen, List.length_nil] at this
      omega
  unfold capsule_turn
  simp only [take_min_length, drop_min_length, happend]
  rw [← hlen]
  rfl

end Capsule

/-! ## Pieces -/

section Pieces

variable {r : UploadReceiver} {authorized : Bool}

/-- The header is not too long, and the stage is with the receiver. -/
structure Consistent (r : UploadReceiver) : Prop where
  header : r.header.length ≤ kUploadHeaderBytes
  staging : r.header.length = kUploadHeaderBytes → r.capsule_bytes < r.expected_bytes → Staging r

/-- The loop after a turn, against another call with the rest. -/
def Splits (authorized : Bool) (r : UploadReceiver) (byte : Byte) (rest : List Byte) : Prop :=
  feed_loop authorized (r.turn authorized byte rest).2.length (r.turn authorized byte rest).1
    (r.turn authorized byte rest).2 = (r.turn authorized byte []).1.feed authorized rest

variable {byte : Byte}

/-- The turn took one byte and goes on. -/
theorem splits_of_one {x : UploadReceiver} {rest : List Byte} (hx : x.status = .receiving)
    (hall : r.turn authorized byte rest = (x, rest)) (hone : (r.turn authorized byte []).1 = x) :
    Splits authorized r byte rest := by
  rw [Splits, hall, hone, feed_receiving hx]

/-- The turn rejected. -/
theorem splits_of_rejected {x : UploadReceiver} {rest : List Byte}
    (hx : x.status = .denied ∨ x.status = .invalid) (hall : r.turn authorized byte rest = (x, []))
    (hone : (r.turn authorized byte []).1 = x) : Splits authorized r byte rest := by
  rw [Splits, hall, hone, feed_rejected hx, feed_loop_nil]

/-- The turn takes with the first byte what it takes after it. -/
theorem splits_of_more {next : Byte} {rest : List Byte} {y : UploadReceiver} (hy : y.status = .receiving)
    (hone : (r.turn authorized byte []).1 = y)
    (hsame : y.turn authorized next rest = r.turn authorized byte (next :: rest)) :
    Splits authorized r byte (next :: rest) := by
  rw [Splits, hone, feed_cons hy, hsame]

theorem header_turn_eq (bytes : List Byte) : r.header_turn authorized bytes =
    if (r.header ++ bytes.take (kUploadHeaderBytes - r.header.length)).length = kUploadHeaderBytes then
      (({ r with header := r.header ++ bytes.take (kUploadHeaderBytes - r.header.length) }.parse_header
          authorized).2,
        if ({ r with header := r.header ++ bytes.take (kUploadHeaderBytes - r.header.length) }.parse_header
          authorized).1 then bytes.drop (kUploadHeaderBytes - r.header.length) else [])
    else ({ r with header := r.header ++ bytes.take (kUploadHeaderBytes - r.header.length) },
      bytes.drop (kUploadHeaderBytes - r.header.length)) := by
  unfold header_turn
  simp only [take_min_length, drop_min_length]
  split
  · generalize ({ r with header := _ } : UploadReceiver).parse_header authorized = parsed
    obtain ⟨ok, x⟩ := parsed
    cases ok <;> rfl
  · rfl

theorem parse_header_status (r : UploadReceiver) (authorized : Bool) :
    ((r.parse_header authorized).1 = true ∧ (r.parse_header authorized).2.status = r.status) ∨
      ((r.parse_header authorized).1 = false ∧ ((r.parse_header authorized).2.status = .denied ∨
        (r.parse_header authorized).2.status = .invalid)) := by
  by_cases h : Announces r authorized
  · rw [parse_header_announced h]
    exact .inl ⟨rfl, rfl⟩
  · obtain ⟨hfalse, hstatus, -⟩ := parse_header_refused h
    exact .inr ⟨hfalse, hstatus⟩

/-- In the header, it makes no difference where a call ends. -/
theorem header_splits (hstatus : r.status = .receiving) (hheader : r.header.length < kUploadHeaderBytes)
    (byte next : Byte) (rest : List Byte) : Splits authorized r byte (next :: rest) := by
  have hturn : ∀ rest, r.turn authorized byte rest = r.header_turn authorized (byte :: rest) :=
    fun _ => if_pos hheader
  by_cases hlast : r.header.length + 1 = kUploadHeaderBytes
  · -- the byte is the last of the header
    have hroom : kUploadHeaderBytes - r.header.length = 1 := by omega
    have hparse : ∀ rest, r.turn authorized byte rest =
        (({ r with header := r.header ++ [byte] }.parse_header authorized).2,
          if ({ r with header := r.header ++ [byte] }.parse_header authorized).1 then rest else []) := by
      intro rest
      rw [hturn, header_turn_eq, hroom]
      simp only [List.take_succ_cons, List.take_zero, List.drop_succ_cons, List.drop_zero]
      rw [if_pos (by rw [List.length_append]; exact hlast)]
    rcases parse_header_status { r with header := r.header ++ [byte] } authorized with ⟨hok, hkept⟩ | ⟨hno, hbad⟩
    · exact splits_of_one (hkept.trans hstatus) (by rw [hparse, hok]; rfl) (by rw [hparse])
    · exact splits_of_rejected hbad (by rw [hparse, hno]; rfl) (by rw [hparse])
  · -- another header byte follows
    obtain ⟨room, hroom⟩ : ∃ room, kUploadHeaderBytes - r.header.length = room + 2 :=
      ⟨kUploadHeaderBytes - r.header.length - 2, by omega⟩
    have hone : (r.turn authorized byte []).1 = { r with header := r.header ++ [byte] } := by
      rw [hturn, header_turn_eq, hroom]
      simp only [List.take_succ_cons, List.take_nil, List.drop_succ_cons, List.drop_nil]
      rw [if_neg (by rw [List.length_append]; exact hlast)]
    have hshort : (r.header ++ [byte]).length < kUploadHeaderBytes := by
      rw [List.length_append, List.length_singleton]
      omega
    have hroom' : kUploadHeaderBytes - (r.header ++ [byte]).length = room + 1 := by
      rw [List.length_append, List.length_singleton]
      omega
    refine splits_of_more (y := { r with header := r.header ++ [byte] }) hstatus hone ?_
    rw [hturn, turn, if_pos hshort, header_turn_eq, header_turn_eq, hroom, hroom']
    simp only [List.append_assoc, List.singleton_append, List.take_succ_cons, List.drop_succ_cons]

theorem finishing_status (r : UploadReceiver) (rest : List Byte) :
    (∃ stage, ∀ rest, r.finishing rest = ({ r with stage := stage }, rest)) ∨
      (r.finishing rest).1.status = .invalid ∧ ∀ rest', r.finishing rest' = ((r.finishing rest).1, []) := by
  unfold finishing
  generalize r.stage.finish r.owner = finished
  obtain ⟨e, stage⟩ := finished
  cases e
  case ok => exact .inl ⟨stage, fun _ => rfl⟩
  all_goals exact .inr ⟨rfl, fun _ => rfl⟩

theorem Staging.holding (h : Staging r) {data : List Byte}
    (hle : r.capsule_bytes + data.length ≤ r.expected_bytes) : Staging (r.holding data) := by
  obtain ⟨howner, howned, hverified, hreceived, hexpected, hroom, hfits⟩ := h
  refine ⟨howner, howned, hverified, ?_, hexpected, ?_, hfits⟩
  · simp only [UploadReceiver.holding, stored, hreceived]
  · simp only [UploadReceiver.holding, stored]
    rw [copy_at_length _ _ (by omega), hroom]

theorem holding_append (h : Staging r) (x y : List Byte)
    (hle : r.capsule_bytes + (x.length + y.length) ≤ r.expected_bytes) :
    (r.holding x).holding y = r.holding (x ++ y) := by
  have hreceived := h.received
  have hroom := h.room
  have hfits := h.fits
  simp only [UploadReceiver.holding]
  rw [stored_append _ _ _ (by omega), List.length_append, Nat.add_assoc]

/-- Nor in the capsule. -/
theorem capsule_splits (hstatus : r.status = .receiving) (hheader : ¬ r.header.length < kUploadHeaderBytes)
    (hmore : r.capsule_bytes < r.expected_bytes) (h : Staging r) (byte next : Byte) (rest : List Byte) :
    Splits authorized r byte (next :: rest) := by
  have hturn : ∀ rest, r.turn authorized byte rest = r.capsule_turn (byte :: rest) := by
    intro rest
    rw [turn, if_neg hheader, if_pos hmore]
  by_cases hlast : r.capsule_bytes + 1 = r.expected_bytes
  · -- the byte is the last of the capsule
    have hroom : r.expected_bytes - r.capsule_bytes = 1 := by omega
    have hfinish : ∀ rest, r.turn authorized byte rest = (r.holding [byte]).finishing rest := by
      intro rest
      rw [hturn, capsule_turn_eq h hmore (by simp), hroom]
      simp only [List.take_succ_cons, List.take_zero, List.drop_succ_cons, List.drop_zero]
      rw [if_pos (show (r.holding [byte]).capsule_bytes = r.expected_bytes from hlast)]
    rcases finishing_status (r.holding [byte]) [] with ⟨stage, hok⟩ | ⟨hbad, hno⟩
    · exact splits_of_one (x := { r.holding [byte] with stage := stage }) hstatus (by rw [hfinish, hok])
        (by rw [hfinish, hok])
    · exact splits_of_rejected (.inr hbad) (by rw [hfinish, hno]) (by rw [hfinish])
  · -- another byte of the capsule follows
    obtain ⟨room, hroom⟩ : ∃ room, r.expected_bytes - r.capsule_bytes = room + 2 :=
      ⟨r.expected_bytes - r.capsule_bytes - 2, by omega⟩
    have hone : (r.turn authorized byte []).1 = r.holding [byte] := by
      rw [hturn, capsule_turn_eq h hmore (by simp), hroom]
      simp only [List.take_succ_cons, List.take_nil, List.drop_succ_cons, List.drop_nil]
      rw [if_neg (show ¬ (r.holding [byte]).capsule_bytes = r.expected_bytes from hlast)]
    have hnext : (r.holding [byte]).capsule_bytes < (r.holding [byte]).expected_bytes := by
      change r.capsule_bytes + 1 < r.expected_bytes
      omega
    have hroom' : (r.holding [byte]).expected_bytes - (r.holding [byte]).capsule_bytes = room + 1 := by
      change r.expected_bytes - (r.capsule_bytes + 1) = room + 1
      omega
    have hstaging : Staging (r.holding [byte]) := h.holding (by simp; omega)
    have hlen := List.length_take_le (room + 1) (next :: rest)
    refine splits_of_more (y := r.holding [byte]) hstatus hone ?_
    rw [hturn, turn, if_neg (show ¬ (r.holding [byte]).header.length < _ from hheader), if_pos hnext,
      capsule_turn_eq hstaging hnext (by simp),
      capsule_turn_eq h hmore (by simp), hroom, hroom',
      holding_append h _ _ (by rw [List.length_singleton]; omega)]
    rfl

/-! The four turns in the last word. -/

theorem commit_turn_wrong (hbyte : byte ≠ commit.getD r.commit_bytes 0) (rest : List Byte) :
    r.commit_turn true byte rest
      = (({ r with commit_bytes := r.commit_bytes + 1 } : UploadReceiver).reject .invalid, []) := by
  rw [commit_turn, if_neg (by decide), if_pos hbyte]

theorem commit_turn_more (hstatus : r.status = .receiving)
    (hbyte : byte = commit.getD r.commit_bytes 0) (hmore : r.commit_bytes + 1 ≠ 4) (rest : List Byte) :
    r.commit_turn true byte rest = ({ r with commit_bytes := r.commit_bytes + 1 }, rest) := by
  rw [commit_turn, if_neg (by decide), if_neg (by rw [hbyte]; exact fun h => h rfl), if_neg hmore,
    if_neg (by simp [hstatus])]

theorem commit_turn_last (hbyte : byte = commit.getD r.commit_bytes 0)
    (hlast : r.commit_bytes + 1 = 4) (rest : List Byte) :
    r.commit_turn true byte rest =
      if rest = [] then ({ r with commit_bytes := r.commit_bytes + 1, status := .ready }, [])
      else (({ r with commit_bytes := r.commit_bytes + 1, status := .ready } : UploadReceiver).reject .invalid,
        []) := by
  rw [commit_turn, if_neg (by decide), if_neg (by rw [hbyte]; exact fun h => h rfl), if_pos hlast]
  cases rest with
  | nil => rfl
  | cons next rest => rfl

/-- Nor in the commit byte. -/
theorem commit_splits (hstatus : r.status = .receiving) (hheader : ¬ r.header.length < kUploadHeaderBytes)
    (hmore : ¬ r.capsule_bytes < r.expected_bytes) (byte next : Byte) (rest : List Byte) :
    Splits authorized r byte (next :: rest) := by
  have hturn : ∀ rest, r.turn authorized byte rest = r.commit_turn authorized byte rest := by
    intro rest
    rw [turn, if_neg hheader, if_neg hmore]
  cases authorized with
  | false => exact splits_of_rejected (x := r.reject .denied) (.inl rfl) (hturn _) (by rw [hturn]; rfl)
  | true =>
    by_cases hbyte : byte = commit.getD r.commit_bytes 0
    · by_cases hlast : r.commit_bytes + 1 = 4
      · -- the word is complete, and a byte follows it
        rw [Splits, hturn, hturn, commit_turn_last hbyte hlast, commit_turn_last hbyte hlast, if_pos rfl,
          if_neg (by simp), feed_ready rfl, feed_loop_nil]
      · exact splits_of_one (x := { r with commit_bytes := r.commit_bytes + 1 }) hstatus
          (by rw [hturn, commit_turn_more hstatus hbyte hlast])
          (by rw [hturn, commit_turn_more hstatus hbyte hlast])
    · exact splits_of_rejected (x := ({ r with commit_bytes := r.commit_bytes + 1 } : UploadReceiver).reject
        .invalid) (.inr rfl) (by rw [hturn, commit_turn_wrong hbyte]) (by rw [hturn, commit_turn_wrong hbyte])

/-- **A call with some bytes is a call with the first, and a call with the rest.** -/
theorem feed_split (h : r.status = .receiving → Consistent r) (byte : Byte) (rest : List Byte) :
    r.feed authorized (byte :: rest) = (r.feed authorized [byte]).feed authorized rest := by
  cases hstatus : r.status with
  | denied => rw [feed_rejected (.inl hstatus), feed_rejected (.inl hstatus), feed_rejected (.inl hstatus)]
  | invalid => rw [feed_rejected (.inr hstatus), feed_rejected (.inr hstatus), feed_rejected (.inr hstatus)]
  | ready => rw [feed_ready hstatus, feed_ready hstatus, feed_rejected (.inr rfl)]
  | receiving =>
    have h := h hstatus
    cases rest with
    | nil => rw [feed_nil]
    | cons next rest =>
      rw [feed_cons hstatus, feed_byte hstatus]
      by_cases hheader : r.header.length < kUploadHeaderBytes
      · exact header_splits hstatus hheader byte next rest
      by_cases hmore : r.capsule_bytes < r.expected_bytes
      · have hfull : r.header.length = kUploadHeaderBytes := le_antisymm h.header (not_lt.mp hheader)
        exact capsule_splits hstatus hheader hmore (h.staging hfull hmore) byte next rest
      · exact commit_splits hstatus hheader hmore byte next rest

end Pieces

/-! ## Byte by byte -/

section Bytes

variable {r₀ r : UploadReceiver} {authorized : Bool} {header capsule part : List Byte}

/-- The receiver with the whole header. -/
def with_header (r₀ : UploadReceiver) (header : List Byte) : UploadReceiver := { r₀ with header := header }

/-- A whole header that is taken. -/
structure Announced (r₀ : UploadReceiver) (authorized : Bool) (header : List Byte) : Prop where
  length : header.length = kUploadHeaderBytes
  announces : Announces (r₀.with_header header) authorized

/-- The receiver after the header. -/
def after_header (r₀ : UploadReceiver) (header : List Byte) : UploadReceiver := (r₀.with_header header).begun

/-- The capsule is the one announced, and an image of its own size. -/
structure Good (s : CapsuleStage) (capsule : List Byte) : Prop where
  length : capsule.length = s.expected_bytes
  digest : sha256 capsule = s.expected_digest
  image : ∃ info, validate_image (some capsule) capsule.length s.api_address = .ok info ∧
    capsule.length = kCodeOffset + info.code_bytes

/-- The receiver after a capsule that was taken. -/
def after_capsule (r₀ : UploadReceiver) (header capsule : List Byte) : UploadReceiver :=
  let r := (r₀.after_header header).holding capsule
  { r with stage := { r.stage with verified := true } }

/-- A whole message. -/
def Accepted (r₀ : UploadReceiver) (authorized : Bool) (message : List Byte) : Prop :=
  ∃ header capsule, Announced r₀ authorized header ∧ Good (r₀.after_header header).stage capsule ∧
    message = header ++ (capsule ++ commit)

/-- Where the receiver is after some bytes. -/
inductive Reached (r₀ : UploadReceiver) (authorized : Bool) : List Byte → UploadReceiver → Prop
  | header {part : List Byte} (hpart : part.length < kUploadHeaderBytes) :
      Reached r₀ authorized part (r₀.with_header part)
  | capsule {header part : List Byte} (hannounced : Announced r₀ authorized header)
      (hpart : part.length < (r₀.after_header header).expected_bytes) :
      Reached r₀ authorized (header ++ part) ((r₀.after_header header).holding part)
  | commit {header capsule part : List Byte} (hannounced : Announced r₀ authorized header)
      (hgood : Good (r₀.after_header header).stage capsule) (hpart : part <+: commit) (hshort : part.length < 4) :
      Reached r₀ authorized (header ++ (capsule ++ part))
        { r₀.after_capsule header capsule with commit_bytes := part.length }
  | ready {header capsule : List Byte} (hannounced : Announced r₀ authorized header)
      (hgood : Good (r₀.after_header header).stage capsule) :
      Reached r₀ authorized (header ++ (capsule ++ Managed.commit))
        { r₀.after_capsule header capsule with commit_bytes := 4, status := .ready }
  | rejected {bytes : List Byte} {r : UploadReceiver} (hstatus : r.status = .denied ∨ r.status = .invalid)
      (hstage : r.stage.owner ≠ r₀.owner) (hother : r₀.stage.owner ≠ 0 → r.stage = r₀.stage)
      (hnone : ∀ message, bytes <+: message → ¬ Accepted r₀ authorized message) :
      Reached r₀ authorized bytes r

/-- What starts a message. -/
theorem Accepted.starts {message : List Byte} (h : Accepted r₀ authorized message)
    (hheader : header.length = kUploadHeaderBytes) (hstart : header ++ part <+: message) :
    Announced r₀ authorized header ∧
      ∃ capsule, Good (r₀.after_header header).stage capsule ∧ part <+: capsule ++ commit := by
  obtain ⟨header', capsule, hannounced, hgood, rfl⟩ := h
  have hsame : header = header' := by
    have hprefix : header <+: header' ++ (capsule ++ commit) := (List.prefix_append _ _).trans hstart
    refine (List.prefix_of_prefix_length_le hprefix (List.prefix_append _ _) ?_).eq_of_length ?_
    · rw [hheader, hannounced.length]
    · rw [hheader, hannounced.length]
  subst hsame
  exact ⟨hannounced, capsule, hgood, (List.prefix_append_right_inj _).mp hstart⟩

/-- What a fresh receiver has. -/
structure Fresh (r₀ : UploadReceiver) : Prop where
  header : r₀.header = []
  capsule_bytes : r₀.capsule_bytes = 0
  commit_bytes : r₀.commit_bytes = 0
  status : r₀.status = .receiving
  owner : r₀.owner ≠ 0
  other : r₀.stage.owner ≠ r₀.owner
  room : r₀.stage.bytes.length = kProofStageBytes

theorem holding_nil (r : UploadReceiver) : r.holding [] = r := by
  simp [holding, stored]

theorem staging_after_header (h₀ : Fresh r₀) (h : Announced r₀ authorized header) :
    Staging (r₀.after_header header) :=
  ⟨rfl, h₀.owner, rfl, h₀.capsule_bytes.symm, rfl, h₀.room, h.announces.size.2⟩

/-- `finish` with the whole capsule. -/
theorem finish_whole {s : CapsuleStage} (h₀ : Fresh r₀) (howner : s.owner = r₀.owner) (hverified : s.verified = false)
    (hreceived : s.received = s.expected_bytes) (hcapsule : s.capsule = capsule)
    (hlength : capsule.length = s.expected_bytes) :
    (Good s capsule → s.finish r₀.owner = (.ok, { s with verified := true })) ∧
      (¬ Good s capsule → ∃ e, e ≠ StageResult.ok ∧ s.finish r₀.owner = (e, .clear)) := by
  unfold CapsuleStage.finish
  rw [if_neg (by simp [howner, h₀.owner, hverified]), if_neg (by simp [howner]), if_neg (by simp [hreceived]),
    hcapsule]
  constructor
  · rintro ⟨-, hdigest, info, hvalid, hsize⟩
    rw [hlength] at hvalid hsize
    rw [if_neg (not_not.mpr hdigest), hvalid]
    exact if_neg (not_not.mpr hsize)
  · intro hbad
    by_cases hdigest : sha256 capsule = s.expected_digest
    · rw [if_neg (not_not.mpr hdigest)]
      cases hvalid : validate_image (some capsule) s.expected_bytes s.api_address with
      | error e => exact ⟨_, by simp, rfl⟩
      | ok info =>
        have hsize : s.expected_bytes ≠ kCodeOffset + info.code_bytes := by
          intro hsize
          rw [← hlength] at hvalid hsize
          exact hbad ⟨hlength, hdigest, info, hvalid, hsize⟩
        exact ⟨.invalid_image, by simp, if_pos hsize⟩
    · exact ⟨_, by simp, if_pos hdigest⟩

/-- The stage holds the whole capsule. -/
theorem holding_capsule (hlen : capsule.length = (r₀.after_header header).expected_bytes) :
    ((r₀.after_header header).holding capsule).stage.capsule = capsule := by
  have hbytes : ((r₀.after_header header).holding capsule).stage.bytes = copy_at r₀.stage.bytes 0 capsule := rfl
  have hexpected : ((r₀.after_header header).holding capsule).stage.expected_bytes = capsule.length := hlen.symm
  rw [CapsuleStage.capsule, hbytes, hexpected, copy_at, List.take_zero, List.nil_append, List.take_left]

theorem finishing_good (h₀ : Fresh r₀) (hgood : Good (r₀.after_header header).stage capsule)
    (rest : List Byte) :
    ((r₀.after_header header).holding capsule).finishing rest = (r₀.after_capsule header capsule, rest) := by
  have hfinish : ((r₀.after_header header).holding capsule).stage.finish r₀.owner = (.ok, _) :=
    (finish_whole h₀ rfl rfl ((Nat.zero_add _).trans hgood.length) (holding_capsule hgood.length) hgood.length).1
      ⟨hgood.length, hgood.digest, hgood.image⟩
  have howner : ((r₀.after_header header).holding capsule).owner = r₀.owner := rfl
  rw [finishing, howner, hfinish]
  rfl

theorem finishing_bad (h₀ : Fresh r₀) (hlen : capsule.length = (r₀.after_header header).expected_bytes)
    (hbad : ¬ Good (r₀.after_header header).stage capsule) (rest : List Byte) :
    (((r₀.after_header header).holding capsule).finishing rest).1.status = .invalid ∧
      (((r₀.after_header header).holding capsule).finishing rest).1.stage = .clear := by
  obtain ⟨e, hne, hfinish⟩ := (finish_whole (s := ((r₀.after_header header).holding capsule).stage) h₀ rfl rfl
    ((Nat.zero_add _).trans hlen) (holding_capsule hlen) hlen).2
    fun hgood => hbad ⟨hgood.length, hgood.digest, hgood.image⟩
  have howner : ((r₀.after_header header).holding capsule).owner = r₀.owner := rfl
  rw [finishing, howner, hfinish]
  cases e <;> first | exact absurd rfl hne | exact ⟨rfl, rfl⟩

/-- A verified stage is cleared by a rejection. -/
theorem reject_stage (h₀ : Fresh r₀) {x : UploadReceiver} (howner : x.owner = r₀.owner)
    (hstage : x.stage.owner = r₀.owner) (reason : UploadStatus) : (x.reject reason).stage = .clear := by
  change (x.stage.abort x.owner).2 = .clear
  unfold CapsuleStage.abort
  rw [if_neg (by rw [hstage]; exact h₀.owner), if_neg (by rw [howner, hstage]; exact fun h => h rfl)]

/-- A rejection with a cleared stage. -/
theorem Reached.cleared (h₀ : Fresh r₀) (hannounced : Announced r₀ authorized header)
    (hstatus : r.status = .denied ∨ r.status = .invalid) (hstage : r.stage = .clear)
    (hnone : ∀ message, bytes <+: message → ¬ Accepted r₀ authorized message) : Reached r₀ authorized bytes r := by
  refine .rejected hstatus ?_ (fun hother => absurd hannounced.announces.free hother) hnone
  rw [hstage]
  exact Ne.symm h₀.owner

/-- In the header. -/
theorem feed_byte_header (h₀ : Fresh r₀) (hpart : part.length < kUploadHeaderBytes) (byte : Byte) :
    Reached r₀ authorized (part ++ [byte]) ((r₀.with_header part).feed authorized [byte]) := by
  obtain ⟨room, hroom⟩ : ∃ room, kUploadHeaderBytes - part.length = room + 1 :=
    ⟨kUploadHeaderBytes - part.length - 1, by omega⟩
  have hturn : ((r₀.with_header part).turn authorized byte []).1 =
      if (part ++ [byte]).length = kUploadHeaderBytes then
        ((r₀.with_header (part ++ [byte])).parse_header authorized).2
      else r₀.with_header (part ++ [byte]) := by
    have hshort : (r₀.with_header part).header.length < kUploadHeaderBytes := hpart
    rw [turn, if_pos hshort, header_turn_eq]
    change (if _ then _ else _ : UploadReceiver × List Byte).1 = _
    simp only [with_header, hroom, List.take_succ_cons, List.take_nil]
    split <;> rfl
  rw [UploadReceiver.feed_byte (show (r₀.with_header part).status = .receiving from h₀.status), hturn]
  split
  · next hfull =>
    by_cases hannounces : Announces (r₀.with_header (part ++ [byte])) authorized
    · have hannounced : Announced r₀ authorized (part ++ [byte]) := ⟨hfull, hannounces⟩
      have hpos : ([] : List Byte).length < (r₀.after_header (part ++ [byte])).expected_bytes :=
        lt_of_le_of_lt (Nat.zero_le _) hannounces.size.1
      have hreached := Reached.capsule hannounced hpos
      rw [List.append_nil, holding_nil] at hreached
      rw [parse_header_announced hannounces]
      exact hreached
    · obtain ⟨-, hstatus, hstage⟩ := parse_header_refused hannounces
      have hkept : (r₀.with_header (part ++ [byte])).parse_header authorized |>.2.stage = r₀.stage :=
        hstage.trans (abort_other h₀.other)
      refine .rejected hstatus (by rw [hkept]; exact h₀.other) (fun _ => hkept) ?_
      intro message hprefix haccepted
      obtain ⟨hannounced, -⟩ := haccepted.starts hfull
        (show (part ++ [byte]) ++ [] <+: message by rwa [List.append_nil])
      exact hannounces hannounced.announces
  · next hnot =>
    refine .header ?_
    rw [List.length_append, List.length_singleton] at hnot ⊢
    omega

/-- In the capsule. -/
theorem feed_byte_capsule (h₀ : Fresh r₀) (hannounced : Announced r₀ authorized header)
    (hpart : part.length < (r₀.after_header header).expected_bytes) (byte : Byte) :
    Reached r₀ authorized (header ++ (part ++ [byte]))
      (((r₀.after_header header).holding part).feed authorized [byte]) := by
  have hstaging := staging_after_header h₀ hannounced
  have hzero : (r₀.after_header header).capsule_bytes = 0 := h₀.capsule_bytes
  have hcount : ((r₀.after_header header).holding part).capsule_bytes = part.length := by
    change (r₀.after_header header).capsule_bytes + part.length = part.length
    omega
  have hmore : ((r₀.after_header header).holding part).capsule_bytes
      < ((r₀.after_header header).holding part).expected_bytes := by
    rw [hcount]
    exact hpart
  have hheader : ¬ ((r₀.after_header header).holding part).header.length < kUploadHeaderBytes :=
    not_lt.mpr hannounced.length.ge
  obtain ⟨room, hroom⟩ : ∃ room, ((r₀.after_header header).holding part).expected_bytes
      - ((r₀.after_header header).holding part).capsule_bytes = room + 1 :=
    ⟨_, (Nat.succ_pred_eq_of_pos (Nat.sub_pos_of_lt hmore)).symm⟩
  have hnext : ((r₀.after_header header).holding part).holding [byte]
      = (r₀.after_header header).holding (part ++ [byte]) :=
    holding_append hstaging _ _ (by rw [List.length_singleton, hzero]; omega)
  have hturn : (((r₀.after_header header).holding part).turn authorized byte []).1 =
      if (part ++ [byte]).length = (r₀.after_header header).expected_bytes then
        (((r₀.after_header header).holding (part ++ [byte])).finishing []).1
      else (r₀.after_header header).holding (part ++ [byte]) := by
    rw [turn, if_neg hheader, if_pos hmore, capsule_turn_eq (hstaging.holding (by omega)) hmore (by simp), hroom]
    simp only [List.take_succ_cons, List.take_nil, List.drop_succ_cons, List.drop_nil, hnext]
    have hcond : ((r₀.after_header header).holding (part ++ [byte])).capsule_bytes = (part ++ [byte]).length := by
      change (r₀.after_header header).capsule_bytes + (part ++ [byte]).length = _
      omega
    rw [hcond]
    have hexpected : ((r₀.after_header header).holding part).expected_bytes
        = (r₀.after_header header).expected_bytes := rfl
    rw [hexpected]
    split <;> rfl
  rw [UploadReceiver.feed_byte (show ((r₀.after_header header).holding part).status = .receiving from h₀.status),
    hturn]
  split
  · next hfull =>
    by_cases hgood : Good (r₀.after_header header).stage (part ++ [byte])
    · have hreached := Reached.commit hannounced hgood (List.nil_prefix (l := Managed.commit)) (by decide)
      rw [List.append_nil] at hreached
      rw [finishing_good h₀ hgood]
      have hcommit : ({ r₀.after_capsule header (part ++ [byte]) with commit_bytes := ([] : List Byte).length }
          : UploadReceiver) = r₀.after_capsule header (part ++ [byte]) := by
        have hnone : (r₀.after_capsule header (part ++ [byte])).commit_bytes = 0 := h₀.commit_bytes
        rw [List.length_nil, ← hnone]
      rw [hcommit] at hreached
      exact hreached
    · obtain ⟨hstatus, hstage⟩ := finishing_bad h₀ hfull hgood []
      refine .cleared h₀ hannounced (.inr hstatus) hstage ?_
      -- an accepted message that starts like this has this very capsule, and it is not good
      intro message hprefix haccepted
      obtain ⟨-, capsule, hcapsule, hpart'⟩ := haccepted.starts hannounced.length hprefix
      have hsame : part ++ [byte] = capsule := by
        have hlen : (part ++ [byte]).length = capsule.length := hfull.trans hcapsule.length.symm
        exact (List.prefix_of_prefix_length_le hpart' (List.prefix_append _ _) hlen.le).eq_of_length hlen
      exact hgood (by rw [hsame]; exact hcapsule)
  · next hnot =>
    refine .capsule hannounced ?_
    rw [List.length_append, List.length_singleton] at hnot ⊢
    omega

/-- In the last word. -/
theorem feed_byte_commit (h₀ : Fresh r₀) (hannounced : Announced r₀ authorized header)
    (hgood : Good (r₀.after_header header).stage capsule) (hpart : part <+: Managed.commit)
    (hshort : part.length < 4) (byte : Byte) :
    Reached r₀ authorized (header ++ (capsule ++ (part ++ [byte])))
      (({ r₀.after_capsule header capsule with commit_bytes := part.length } : UploadReceiver).feed authorized
        [byte]) := by
  have hlength : Managed.commit.length = 4 := by decide +kernel
  obtain rfl := hannounced.announces.authorized
  have hheader : ¬ (r₀.after_capsule header capsule).header.length < kUploadHeaderBytes :=
    not_lt.mpr hannounced.length.ge
  have hwhole : ¬ (r₀.after_capsule header capsule).capsule_bytes <
      (r₀.after_capsule header capsule).expected_bytes := by
    have hcount : (r₀.after_capsule header capsule).capsule_bytes = capsule.length := by
      change r₀.capsule_bytes + capsule.length = _
      rw [h₀.capsule_bytes, Nat.zero_add]
    rw [hcount, hgood.length]
    exact lt_irrefl _
  have hstatus : ({ r₀.after_capsule header capsule with commit_bytes := part.length } : UploadReceiver).status
      = .receiving := h₀.status
  rw [UploadReceiver.feed_byte hstatus, turn, if_neg hheader, if_neg hwhole]
  -- compare the byte with the one that comes next in the commit word
  obtain ⟨after, hafter⟩ := hpart
  have hwanted : Managed.commit.getD part.length 0 = after.getD 0 0 := by
    rw [← hafter, List.getD_append_right _ _ _ _ (le_refl _), Nat.sub_self]
  have hne : after ≠ [] := by
    rintro rfl
    rw [List.append_nil] at hafter
    rw [hafter, hlength] at hshort
    omega
  obtain ⟨wanted, after, rfl⟩ := List.exists_cons_of_ne_nil hne
  rw [List.getD_cons_zero] at hwanted
  by_cases hbyte : byte = wanted
  · subst hbyte
    by_cases hlast : part.length + 1 = 4
    · rw [commit_turn_last hwanted.symm hlast, if_pos rfl]
      have hnone : after = [] := by
        have hlen := congrArg List.length hafter
        rw [List.length_append, List.length_cons, hlength] at hlen
        exact List.length_eq_zero_iff.mp (by omega)
      subst hnone
      rw [hafter, hlast]
      exact .ready hannounced hgood
    · rw [commit_turn_more hstatus hwanted.symm hlast]
      have hreached := Reached.commit hannounced hgood
        (show part ++ [byte] <+: Managed.commit from ⟨after, by rw [← hafter]; simp⟩)
        (by rw [List.length_append, List.length_singleton]; omega)
      rw [List.length_append] at hreached
      exact hreached
  · rw [commit_turn_wrong (by rw [hwanted]; exact hbyte)]
    refine .cleared h₀ hannounced (.inr rfl) (reject_stage h₀ (by rfl) (by rfl) _) ?_
    intro message hprefix haccepted
    obtain ⟨-, capsule', hcapsule', hrest⟩ := haccepted.starts hannounced.length hprefix
    obtain ⟨rfl, hword⟩ : capsule = capsule' ∧ part ++ [byte] <+: Managed.commit := by
      have hlen : capsule.length = capsule'.length := hgood.length.trans hcapsule'.length.symm
      have hsame : capsule = capsule' :=
        (List.prefix_of_prefix_length_le ((List.prefix_append _ _).trans hrest) (List.prefix_append _ _)
          hlen.le).eq_of_length hlen
      subst hsame
      exact ⟨rfl, (List.prefix_append_right_inj _).mp hrest⟩
    rw [← hafter, List.prefix_append_right_inj] at hword
    exact hbyte (by simpa using hword)

/-- **One byte more.** -/
theorem Reached.next (h₀ : Fresh r₀) (h : Reached r₀ authorized bytes r) (byte : Byte) :
    Reached r₀ authorized (bytes ++ [byte]) (r.feed authorized [byte]) := by
  cases h with
  | header hpart => exact feed_byte_header h₀ hpart byte
  | capsule hannounced hpart =>
    rw [List.append_assoc]
    exact feed_byte_capsule h₀ hannounced hpart byte
  | commit hannounced hgood hpart hshort =>
    rw [List.append_assoc, List.append_assoc]
    exact feed_byte_commit h₀ hannounced hgood hpart hshort byte
  | ready hannounced hgood =>
    rw [feed_ready rfl]
    refine .cleared h₀ hannounced (.inr rfl) (reject_stage h₀ (by rfl) (by rfl) _) ?_
    intro message hprefix haccepted
    rw [List.append_assoc] at hprefix
    obtain ⟨-, capsule', hcapsule', hrest⟩ := haccepted.starts hannounced.length hprefix
    have hle := hrest.length_le
    have hlen := hgood.length.trans hcapsule'.length.symm
    simp only [List.length_append, List.length_singleton] at hle
    omega
  | rejected hstatus hstage hother hnone =>
    rw [feed_rejected hstatus]
    exact .rejected hstatus hstage hother fun message hprefix =>
      hnone message ((List.prefix_append _ _).trans hprefix)

/-- While it receives, the receiver is consistent. -/
theorem Reached.consistent (h₀ : Fresh r₀) (h : Reached r₀ authorized bytes r)
    (hstatus : r.status = .receiving) : Consistent r := by
  cases h with
  | header hpart => exact ⟨hpart.le, fun hfull => absurd hfull (ne_of_lt hpart)⟩
  | @capsule header part hannounced hpart =>
    have hzero : (r₀.after_header header).capsule_bytes = 0 := h₀.capsule_bytes
    refine ⟨hannounced.length.le, fun _ _ => (staging_after_header h₀ hannounced).holding ?_⟩
    rw [hzero, Nat.zero_add]
    exact hpart.le
  | @commit header capsule part hannounced hgood hpart hshort =>
    refine ⟨hannounced.length.le, fun _ hmore => absurd hmore ?_⟩
    change ¬ r₀.capsule_bytes + capsule.length < (r₀.after_header header).stage.expected_bytes
    rw [h₀.capsule_bytes, Nat.zero_add, hgood.length]
    exact lt_irrefl _
  | ready hannounced hgood => cases hstatus
  | rejected hbad =>
    rcases hbad with hbad | hbad
    · rw [hbad] at hstatus
      cases hstatus
    · rw [hbad] at hstatus
      cases hstatus

/-- The calls with the bytes one by one. -/
def feed_bytes (authorized : Bool) (r : UploadReceiver) (bytes : List Byte) : UploadReceiver :=
  bytes.foldl (fun r byte => r.feed authorized [byte]) r

/-- A call is the calls with its bytes. -/
theorem Reached.feed_eq (h₀ : Fresh r₀) (h : Reached r₀ authorized bytes r)
    (chunk : List Byte) : r.feed authorized chunk = r.feed_bytes authorized chunk ∧
      Reached r₀ authorized (bytes ++ chunk) (r.feed authorized chunk) := by
  induction chunk generalizing bytes r with
  | nil =>
    rw [feed_nil, List.append_nil]
    exact ⟨rfl, h⟩
  | cons byte rest ih =>
    obtain ⟨hrest, hreached⟩ := ih (h.next h₀ byte)
    rw [feed_split (h.consistent h₀) byte rest]
    refine ⟨hrest, ?_⟩
    rwa [List.append_assoc, List.singleton_append] at hreached

/-- **Any pieces**: the receiver is where the bytes one by one take it. -/
theorem feeds_eq (h₀ : Fresh r₀) (chunks : List (List Byte)) :
    chunks.foldl (feed authorized) r₀ = r₀.feed_bytes authorized chunks.flatten ∧
      Reached r₀ authorized chunks.flatten (chunks.foldl (feed authorized) r₀) := by
  induction chunks using List.reverseRecOn with
  | nil =>
    refine ⟨rfl, ?_⟩
    have hstart : r₀.with_header [] = r₀ := by
      rw [with_header, ← h₀.header]
    have hreached : Reached r₀ authorized [] (r₀.with_header []) := .header (by decide)
    rwa [hstart] at hreached
  | append_singleton chunks chunk ih =>
    obtain ⟨heq, hreached⟩ := ih
    obtain ⟨hchunk, hnext⟩ := hreached.feed_eq h₀ chunk
    rw [List.foldl_append, List.foldl_cons, List.foldl_nil, List.flatten_append, List.flatten_singleton]
    refine ⟨?_, hnext⟩
    rw [hchunk, heq, feed_bytes, feed_bytes, feed_bytes, List.foldl_append]

end Bytes

/-! ## The language -/

/-- A receiver for a device, before its first byte. -/
def start (stage : CapsuleStage) (owner : UInt32) (api : ℕ) (device : List Byte) : UploadReceiver where
  stage := stage
  owner := owner
  api_address := api
  device_id := some device

/-- The header that names a device and a capsule. -/
def header_of (device capsule : List Byte) : List Byte :=
  ascii "FMSU" ++ [1, 0, 0, 0] ++ bytes32_le capsule.length ++ sha256 capsule ++ device

/-- The whole message. -/
def message_of (device capsule : List Byte) : List Byte := header_of device capsule ++ (capsule ++ commit)

section Language

variable {stage : CapsuleStage} {owner : UInt32} {api : ℕ} {device : List Byte} {authorized : Bool}

theorem magic_length : (ascii "FMSU").length = 4 := by decide +kernel

/-- The parts of a header. -/
theorem header_parts {header : List Byte} (h : header.length = kUploadHeaderBytes) :
    header = header.take 4 ++ [header.getD 4 0, header.getD 5 0, header.getD 6 0, header.getD 7 0]
      ++ (header.drop 8).take 4 ++ (header.drop 12).take 32 ++ (header.drop 44).take 16 := by
  have hword : [header.getD 4 0, header.getD 5 0, header.getD 6 0, header.getD 7 0] = (header.drop 4).take 4 := by
    have hlen : ((header.drop 4).take 4).length = 4 := by
      rw [List.length_take, List.length_drop, h]
      rfl
    obtain ⟨a, b, c, d, habcd⟩ := List.length_eq_four.mp hlen
    have hget : ∀ i < 4, header.getD (4 + i) 0 = ((header.drop 4).take 4).getD i 0 := by
      intro i hi
      rw [getD_take_of_lt _ hi, getD_drop]
    rw [show header.getD 4 0 = _ from hget 0 (by decide), show header.getD 5 0 = _ from hget 1 (by decide),
      show header.getD 6 0 = _ from hget 2 (by decide), show header.getD 7 0 = _ from hget 3 (by decide), habcd]
    rfl
  have hlast : (header.drop 44).take 16 = header.drop 44 := by
    refine List.take_of_length_le ?_
    rw [List.length_drop, h]
    decide
  have hjoin : ∀ m n, (header.drop m).take n ++ header.drop (m + n) = header.drop m := by
    intro m n
    rw [← List.drop_drop, List.take_append_drop]
  rw [hword, hlast, List.append_assoc, List.append_assoc, List.append_assoc, hjoin 12 32, hjoin 8 4, hjoin 4 4,
    List.take_append_drop]

/-- The header that the client sends is the one that the receiver reads. -/
theorem header_of_parts (hdevice : device.length = 16) (capsule : List Byte) :
    (header_of device capsule).length = kUploadHeaderBytes ∧
      header_matches (header_of device capsule) device = true ∧
      (header_of device capsule).drop 8 = bytes32_le capsule.length ++ (sha256 capsule ++ device) ∧
      ((header_of device capsule).drop 12).take 32 = sha256 capsule := by
  obtain ⟨a, b, c, d, hmagic⟩ := List.length_eq_four.mp magic_length
  have hlen := sha256_length capsule
  have hshape : header_of device capsule
      = a :: b :: c :: d :: 1 :: 0 :: 0 :: 0 :: (bytes32_le capsule.length ++ (sha256 capsule ++ device)) := by
    simp [header_of, hmagic]
  have hdrop : (header_of device capsule).drop 8 = bytes32_le capsule.length ++ (sha256 capsule ++ device) := by
    rw [hshape]
    rfl
  have hrest : (header_of device capsule).drop 12 = sha256 capsule ++ device := by
    rw [show 12 = 8 + (bytes32_le capsule.length).length from rfl, ← List.drop_drop, hdrop, List.drop_left]
  have hdev : (header_of device capsule).drop 44 = device := by
    rw [show 44 = 12 + 32 from rfl, ← List.drop_drop, hrest, ← hlen, List.drop_left]
  refine ⟨?_, ?_, hdrop, ?_⟩
  · rw [hshape]
    simp only [List.length_cons, List.length_append, bytes32_le_length, hlen, hdevice]
    rfl
  · simp only [header_matches, hdev, Bool.and_eq_true, decide_eq_true_eq]
    rw [hshape, hmagic, hdevice]
    exact ⟨⟨⟨⟨⟨⟨rfl, rfl⟩, rfl⟩, rfl⟩, rfl⟩, rfl⟩, List.take_of_length_le hdevice.le⟩
  · rw [hrest, ← hlen, List.take_left]

/-- What the stage takes in one piece. -/
theorem stages_whole_iff (howner : owner ≠ 0) (hapi : api ≠ 0) (capsule : List Byte) :
    CapsuleStage.Stages owner api capsule [capsule] ↔
      kCodeOffset < capsule.length ∧ capsule.length ≤ kProofStageBytes ∧
        ∃ info, validate_image (some capsule) capsule.length api = .ok info ∧
          capsule.length = kCodeOffset + info.code_bytes := by
  by_cases hne : capsule = []
  · subst hne
    refine iff_of_false ?_ (fun h => absurd h.1 (by decide))
    intro h
    have hbegin := h (CapsuleStage.clear.begin owner true 0 (sha256 []) api).1
      (by simp [CapsuleStage.staging])
    rw [CapsuleStage.begin, if_neg (by simp), if_neg (by simp [CapsuleStage.clear]), if_pos (by simp)] at hbegin
    cases hbegin
  · refine CapsuleStage.stages_iff howner hapi ?_ (by simp)
    intro piece hpiece
    rwa [List.mem_singleton.mp hpiece]

/-- **The messages of a receiver.** -/
theorem accepted_iff (howner : owner ≠ 0) (hapi : api ≠ 0) (hdevice : device.length = 16) (message : List Byte) :
    Accepted (start stage owner api device) authorized message ↔
      authorized = true ∧ stage.owner = 0 ∧ ∃ capsule, message = message_of device capsule ∧
        CapsuleStage.Stages owner api capsule [capsule] := by
  constructor
  · rintro ⟨header, capsule, hannounced, hgood, rfl⟩
    obtain ⟨⟨device', hdevice', hmatches⟩, hauthorized, -, hfree, hsize, -⟩ := hannounced.announces
    obtain rfl : device = device' := Option.some.inj hdevice'
    have hlen : capsule.length = word32_le (header.drop 8) := hgood.length
    have hdigest : sha256 capsule = (header.drop 12).take 32 := hgood.digest
    have hword : (header.drop 8).take 4 = bytes32_le capsule.length := by
      rw [hlen, bytes32_le_word32_le]
      rw [List.length_drop, hannounced.length]
      decide
    have hheader : header = header_of device capsule := by
      have hmatches : header_matches header device = true := hmatches
      simp only [header_matches, Bool.and_eq_true, decide_eq_true_eq] at hmatches
      obtain ⟨⟨⟨⟨⟨⟨hmagic, h4⟩, h5⟩, h6⟩, h7⟩, -⟩, hdev⟩ := hmatches
      rw [header_parts hannounced.length, hmagic, h4, h5, h6, h7, hword, ← hdigest, hdev]
      rfl
    refine ⟨hauthorized, hfree, capsule, by rw [message_of, ← hheader], ?_⟩
    rw [stages_whole_iff howner hapi]
    have hsize : kCodeOffset < word32_le (header.drop 8) ∧ word32_le (header.drop 8) ≤ kProofStageBytes := hsize
    rw [← hlen] at hsize
    exact ⟨hsize.1, hsize.2, hgood.image⟩
  · rintro ⟨hauthorized, hfree, capsule, rfl, hstages⟩
    obtain ⟨hsize, hfits, himage⟩ := (stages_whole_iff howner hapi capsule).mp hstages
    obtain ⟨hlength, hmatches, hdrop, hdigest⟩ := header_of_parts hdevice capsule
    have hword : word32_le ((header_of device capsule).drop 8) = capsule.length := by
      rw [hdrop]
      refine word32_le_bytes32_le (lt_of_le_of_lt hfits ?_) _
      decide
    refine ⟨header_of device capsule, capsule, ⟨hlength, ⟨device, rfl, hmatches⟩, hauthorized, howner, hfree, ?_,
      hapi⟩, ⟨hword.symm, hdigest.symm, himage⟩, rfl⟩
    change kCodeOffset < word32_le ((header_of device capsule).drop 8) ∧
      word32_le ((header_of device capsule).drop 8) ≤ kProofStageBytes
    rw [hword]
    exact ⟨hsize, hfits⟩

/-- A receiver is ready after the messages, and only after them. -/
theorem Reached.ready_iff {r₀ r : UploadReceiver} (h₀ : Fresh r₀)
    (h : Reached r₀ authorized bytes r) : r.status = .ready ↔ Accepted r₀ authorized bytes := by
  have hreceiving : ∀ {x : UploadReceiver}, x.status = .receiving → x.status ≠ .ready := by
    intro x hx hready
    rw [hx] at hready
    cases hready
  cases h with
  | header hpart =>
    refine iff_of_false (hreceiving (by exact h₀.status)) ?_
    rintro ⟨header, capsule, hannounced, -, rfl⟩
    rw [List.length_append, hannounced.length] at hpart
    omega
  | @capsule header part hannounced hpart =>
    refine iff_of_false (hreceiving (by exact h₀.status)) ?_
    intro haccepted
    obtain ⟨header', capsule, hannounced', hgood, hmessage⟩ := haccepted
    obtain ⟨rfl, rfl⟩ := List.append_inj hmessage (hannounced.length.trans hannounced'.length.symm)
    have hlen : capsule.length = (r₀.after_header header).expected_bytes := hgood.length
    rw [List.length_append] at hpart
    omega
  | @commit header capsule part hannounced hgood hpart hshort =>
    refine iff_of_false (hreceiving (by exact h₀.status)) ?_
    rintro ⟨header', capsule', hannounced', hgood', hmessage⟩
    obtain ⟨rfl, hrest⟩ := List.append_inj hmessage (hannounced.length.trans hannounced'.length.symm)
    obtain ⟨rfl, rfl⟩ := List.append_inj hrest (hgood.length.trans hgood'.length.symm)
    exact absurd hshort (by decide +kernel)
  | ready hannounced hgood => exact iff_of_true rfl ⟨_, _, hannounced, hgood, rfl⟩
  | rejected hstatus _ _ hnone =>
    refine iff_of_false ?_ (hnone _ (List.prefix_refl _))
    rcases hstatus with hstatus | hstatus
    · rw [hstatus]
      simp
    · rw [hstatus]
      simp

/-- A receiver that is ready holds the capsule of its message. -/
theorem Reached.holds {r₀ r : UploadReceiver} (h₀ : Fresh r₀)
    (h : Reached r₀ authorized bytes r) (hready : r.status = .ready) : ∃ header capsule,
      header.length = kUploadHeaderBytes ∧ bytes = header ++ (capsule ++ Managed.commit) ∧
        r.stage.verified_capsule r₀.owner = some capsule := by
  cases h with
  | header hpart =>
    rw [show (r₀.with_header bytes).status = .receiving from h₀.status] at hready
    cases hready
  | @capsule header part hannounced hpart =>
    rw [show ((r₀.after_header header).holding part).status = .receiving from h₀.status] at hready
    cases hready
  | @commit header capsule part hannounced hgood hpart hshort =>
    rw [show ({ r₀.after_capsule header capsule with commit_bytes := part.length } : UploadReceiver).status
      = .receiving from h₀.status] at hready
    cases hready
  | @ready header capsule hannounced hgood =>
    refine ⟨header, capsule, hannounced.length, rfl, ?_⟩
    have hcapsule : ((r₀.after_header header).holding capsule).stage.capsule = capsule :=
      holding_capsule hgood.length
    rw [CapsuleStage.verified_capsule, if_neg]
    · exact congrArg some hcapsule
    · change ¬ ((false || decide (r₀.owner ≠ r₀.owner)) = true)
      simp
  | rejected hstatus =>
    rcases hstatus with hstatus | hstatus
    · rw [hstatus] at hready
      cases hready
    · rw [hstatus] at hready
      cases hready

/-- A receiver that has rejected holds no stage. -/
theorem Reached.released {r₀ r : UploadReceiver} (h₀ : Fresh r₀) (h : Reached r₀ authorized bytes r)
    (hbad : r.status = .denied ∨ r.status = .invalid) : r.stage.owner ≠ r₀.owner := by
  have hreceiving : ∀ {x : UploadReceiver}, x.status = .receiving →
      x.status = .denied ∨ x.status = .invalid → x.stage.owner ≠ r₀.owner := by
    intro x hx hbad
    rw [hx] at hbad
    rcases hbad with hbad | hbad <;> cases hbad
  cases h with
  | header hpart => exact hreceiving h₀.status hbad
  | capsule hannounced hpart => exact hreceiving h₀.status hbad
  | commit hannounced hgood hpart hshort => exact hreceiving h₀.status hbad
  | ready hannounced hgood => rcases hbad with hbad | hbad <;> cases hbad
  | rejected _ hstage => exact hstage

/-- A stage of another owner is left alone. -/
theorem Reached.untouched {r₀ r : UploadReceiver} (h : Reached r₀ authorized bytes r)
    (hother : r₀.stage.owner ≠ 0) : r.stage = r₀.stage := by
  cases h with
  | header hpart => rfl
  | capsule hannounced hpart => exact absurd hannounced.announces.free hother
  | commit hannounced hgood hpart hshort => exact absurd hannounced.announces.free hother
  | ready hannounced hgood => exact absurd hannounced.announces.free hother
  | rejected _ _ hkept => exact hkept hother

end Language

/-- The receiver after some calls. -/
def received (stage : CapsuleStage) (owner : UInt32) (api : ℕ) (device : List Byte) (authorized : Bool)
    (chunks : List (List Byte)) : UploadReceiver :=
  chunks.foldl (feed authorized) (start stage owner api device)

/-- **The receiver accepts one language, in any pieces.** For a device ID of 16 characters, an
address and an owner that are not zero, and a stage that the owner does not hold: the receiver
after some calls depends only on the bytes they bring together. It is ready if and only if it is
authorized, the stage was free, and the bytes are the header that names the device and a capsule,
the capsule, and `GO!!`, for a capsule that the stage accepts; the stage then holds that capsule
verified for the owner. When it has rejected, the owner holds no stage; and a stage of another owner
never changes. -/
theorem receiver_language (stage : CapsuleStage) (owner : UInt32) (api : ℕ) (device : List Byte)
    (authorized : Bool) (howner : owner ≠ 0) (hapi : api ≠ 0) (hdevice : device.length = 16)
    (hother : stage.owner ≠ owner) (hroom : stage.bytes.length = kProofStageBytes) (chunks : List (List Byte)) :
    (∀ chunks', chunks'.flatten = chunks.flatten →
      received stage owner api device authorized chunks' = received stage owner api device authorized chunks) ∧
    ((received stage owner api device authorized chunks).status = .ready ↔
      authorized = true ∧ stage.owner = 0 ∧ ∃ capsule, chunks.flatten = message_of device capsule ∧
        CapsuleStage.Stages owner api capsule [capsule]) ∧
    ((received stage owner api device authorized chunks).status = .ready →
      ∀ capsule, chunks.flatten = message_of device capsule →
        (received stage owner api device authorized chunks).stage.verified_capsule owner = some capsule) ∧
    ((received stage owner api device authorized chunks).status = .denied ∨
        (received stage owner api device authorized chunks).status = .invalid →
      (received stage owner api device authorized chunks).stage.owner ≠ owner) ∧
    (stage.owner ≠ 0 → (received stage owner api device authorized chunks).stage = stage) := by
  have h₀ : Fresh (start stage owner api device) := ⟨rfl, rfl, rfl, rfl, howner, hother, hroom⟩
  obtain ⟨-, hreached⟩ : _ ∧ Reached _ authorized _ _ := feeds_eq h₀ chunks
  refine ⟨?_, (hreached.ready_iff h₀).trans (accepted_iff howner hapi hdevice _), ?_, hreached.released h₀,
    hreached.untouched⟩
  · intro chunks' hsame
    unfold received
    rw [(feeds_eq h₀ chunks').1, (feeds_eq h₀ chunks).1, hsame]
  · intro hready capsule hmessage
    obtain ⟨header, capsule', hheader, hbytes, hholds⟩ := hreached.holds h₀ hready
    rw [hmessage] at hbytes
    obtain ⟨-, hrest⟩ := List.append_inj hbytes ((header_of_parts hdevice capsule).1.trans hheader.symm)
    rw [List.append_cancel_right hrest]
    exact hholds

/-- The sample image, in three pieces. -/
theorem receiver_language_sample :
    (received {} 7 0x10000100 (ascii "5031503337360009") true
      [(message_of (ascii "5031503337360009") sample_image).take 30,
        ((message_of (ascii "5031503337360009") sample_image).drop 30).take 300,
        ((message_of (ascii "5031503337360009") sample_image).drop 30).drop 300]).status = .ready := by
  obtain ⟨-, hready, -⟩ := receiver_language {} 7 0x10000100 (ascii "5031503337360009") true (by decide) (by decide)
    (by decide +kernel) (by decide) (by decide +kernel)
    [(message_of (ascii "5031503337360009") sample_image).take 30,
      ((message_of (ascii "5031503337360009") sample_image).drop 30).take 300,
      ((message_of (ascii "5031503337360009") sample_image).drop 30).drop 300]
  refine hready.mpr ⟨rfl, rfl, sample_image, ?_, sample_image_stages⟩
  simp only [List.flatten_cons, List.flatten_nil, List.append_nil, List.take_append_drop]

end UploadReceiver

end Firmingo.Managed
