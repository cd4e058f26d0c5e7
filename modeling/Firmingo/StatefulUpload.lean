/-
The upload service of the FMS2 resident: `experiments/managed_sketch/stateful_upload.h` and
`stateful_upload.cpp`.

The service stages a capsule in its own buffer, and a queued commit hands a copy to the
replacement. The arm input is a field, as in the FMS1 service; a poll is told what the
hardware answers and whether the slot overlaps the arena. It also tells whether it called
`Replacement::request`, and how old the stage was then.

`Phase` is the joint invariant of the record, the stage, the queued commit and the
replacement's snapshot.
-/
import Firmingo.Endpoint
import Firmingo.StatefulRuntime
import Firmingo.UploadLog

set_option autoImplicit false

open Octets

namespace Firmingo.Managed.Stateful

def staging_timeout_ms : UInt32 := 30000

/-- `Upload`, with the runtime and the replacement it refers to. -/
structure Upload where
  contract : Contract
  runtime : Runtime
  replacement : Replacement := {}
  stage : List Byte := List.replicate kMaximumCapsuleBytes 0
  last : UploadStatus := {}
  owner : UInt32 := 0
  next_id : ℕ := 1
  now : UInt32 := 0
  staged_at : UInt32 := 0
  installed_generation : ℕ := 0
  commit_pending : Bool := false
  armed : Bool := false
  deriving DecidableEq, Repr

namespace Upload

/-- `target_`, from the exported contract. -/
def target : UploadTarget :=
  ⟨2, some (ascii "nano-managed-v2"), 4096, 1024, some (ascii "physical-d2-gnd")⟩

/-- `blocks_console`. -/
def blocks_console (u : Upload) : Bool := u.last.id ≠ 0 && is_open u.last.state

/-- `check`. -/
def check (u : Upload) (owner : UInt32) (id : ℕ) (expected : UploadState) : UploadError :=
  check_record u.last u.owner owner id expected

/-- `clear_stage`. -/
def clear_stage (u : Upload) : Upload := { u with stage := List.replicate kMaximumCapsuleBytes 0 }

/-- `fail`. -/
def fail (u : Upload) (error : UploadError) : Upload :=
  { u.clear_stage with
    commit_pending := false
    installed_generation := 0
    last := { u.last with state := .failed, error := error } }

/-- `begin`. -/
def begin (u : Upload) (owner : UInt32) (size : ℕ) (digest : List Byte) : UploadAnswer × Upload :=
  if !u.armed then ({ error := .unauthorized }, u)
  else if u.blocks_console || u.replacement.active then ({ error := .busy }, u)
  else if size > kMaximumCapsuleBytes || size > u.contract.maximum_capsule_bytes then
    ({ error := .insufficient_storage }, u)
  else if owner = 0 || size < 260 || u.contract.maximum_capsule_bytes ≠ target.max_size then
    ({ error := .invalid_argument }, u)
  else if u.next_id = 0 then ({ error := .io_error }, u)
  else
    let last : UploadStatus := { id := u.next_id, size := size, state := .accepted, digest := digest }
    ({ error := .none, status := last }, { u.clear_stage with
      last := last
      next_id := (u.next_id + 1) % 2 ^ 32
      owner := owner
      staged_at := u.now
      installed_generation := 0 })

/-- `chunk`. -/
def chunk (u : Upload) (owner : UInt32) (id offset : ℕ) (data : List Byte) : UploadAnswer × Upload :=
  if u.check owner id .accepted ≠ .none then ({ error := u.check owner id .accepted }, u)
  else if data = [] || data.length > target.max_chunk || data.length > u.last.size - u.last.received then
    ({ error := .invalid_argument }, u)
  else if offset ≠ u.last.received then ({ error := .wrong_offset }, u)
  else
    let last := { u.last with received := u.last.received + data.length }
    ({ error := .none, status := last }, { u with stage := copy_at u.stage offset data, last := last })

/-- `finish`. -/
def finish (u : Upload) (owner : UInt32) (id : ℕ) : UploadAnswer × Upload :=
  let capsule := u.stage.take u.last.size
  if u.check owner id .accepted ≠ .none then ({ error := u.check owner id .accepted }, u)
  else if u.last.received ≠ u.last.size then ({ error := .incomplete }, u)
  else if sha256 capsule ≠ u.last.digest then
    ({ error := .digest_mismatch }, u.fail .digest_mismatch)
  else if !(validate_image (some capsule) u.last.size u.contract).isOk then
    ({ error := .invalid_image }, u.fail .invalid_image)
  else
    let last := { u.last with state := .verified }
    ({ error := .none, status := last }, { u with last := last })

/-- `commit`. -/
def commit (u : Upload) (owner : UInt32) (id : ℕ) : UploadAnswer × Upload :=
  if u.check owner id .verified ≠ .none then ({ error := u.check owner id .verified }, u)
  else if !u.armed then ({ error := .unauthorized }, u)
  else
    let last := { u.last with state := .committing }
    ({ error := .none, status := last }, { u with last := last, commit_pending := true })

/-- `abort`. -/
def abort (u : Upload) (owner : UInt32) (id : ℕ) : UploadAnswer × Upload :=
  if id = 0 || id ≠ u.last.id then ({ error := .wrong_target }, u)
  else if owner = 0 || owner ≠ u.owner then ({ error := .wrong_owner }, u)
  else if u.last.state ≠ .accepted && u.last.state ≠ .verified then ({ error := .invalid_state }, u)
  else
    let last := { u.last with state := .aborted }
    ({ error := .none, status := last }, { u.clear_stage with last := last })

/-- `status`. -/
def status (u : Upload) (id : ℕ) : UploadAnswer :=
  if id = 0 || id ≠ u.last.id then { error := .wrong_target } else { error := .none, status := u.last }

/-- `disconnect`. -/
def disconnect (u : Upload) (owner : UInt32) : Upload :=
  if u.last.id = 0 || owner ≠ u.owner then u
  else if u.last.state = .accepted || u.last.state = .verified then
    { u.clear_stage with last := { u.last with state := .aborted, error := .disconnected } }
  else u

/-- The end of `poll`: what the replacement reports goes into the record. -/
def settle (u : Upload) : ReplacementStatus → Upload
  | .complete => { u with
      installed_generation := u.runtime.active_generation
      last := { u.last with state := .installed } }
  | .denied => u.fail .unauthorized
  | .timeout => u.fail .park_timeout
  | .failed => u.fail .install_failed
  | .idle => u.fail .io_error
  | .waiting => u

/-- The last part of `poll`: the replacement is driven. -/
def drive (u : Upload) (now : UInt32) (board : Board) (overlaps : Bool) :
    Upload × List (Hardware Started) :=
  let (report, replacement, runtime, accesses) :=
    u.replacement.poll u.runtime board overlaps now u.armed
  ({ u with
      replacement := replacement
      runtime := runtime
      last := { u.last with slot_touched := report.slot_touched } }.settle report.status, accesses)

/-- The stage is held for too long, and no replacement has taken it over. -/
def expired (u : Upload) (now : UInt32) : Bool :=
  u.blocks_console && !u.replacement.active && now - u.staged_at ≥ staging_timeout_ms

/-- `poll`. The second component is the age of the stage a replacement was requested from. -/
def poll (u : Upload) (now : UInt32) (board : Board) (overlaps : Bool) :
    Upload × Option UInt32 × List (Hardware Started) :=
  let u := { u with now := now }
  if u.last.id = 0 then (u, none, [])
  else if u.last.state = .installed && u.installed_generation ≠ 0
      && u.runtime.active_generation = u.installed_generation && u.runtime.loop_returned then
    ({ u with last := { u.last with state := .boot_confirmed } }, none, [])
  else if u.expired now then (u.fail .io_error, none, [])
  else if u.last.state ≠ .committing then (u, none, [])
  else if u.commit_pending then
    let u := { u with commit_pending := false }
    if !u.armed then (u.fail .unauthorized, none, [])
    else
      match u.replacement.request u.runtime board u.stage u.last.size true now with
      | (false, replacement, accesses) =>
        ({ u with replacement := replacement }.fail .io_error, some (now - u.staged_at), accesses)
      | (true, replacement, accesses) =>
        let (u', more) := { u.clear_stage with replacement := replacement }.drive now board overlaps
        (u', some (now - u.staged_at), accesses ++ more)
  else
    let (u, accesses) := u.drive now board overlaps
    (u, none, accesses)

instance : UploadService Upload where
  target := target
  begin := begin
  chunk := chunk
  finish := finish
  commit := commit
  abort := abort
  status := status
  disconnect := disconnect
  blocks_console := blocks_console

def account (u : Upload) : Account := ⟨u.owner, u.next_id, u.last⟩

/-! ## What each call can do -/

variable {u u' : Upload} {owner : UInt32} {id offset : ℕ} {data : List Byte}

/-- A transaction that begins. -/
structure Begun (u : Upload) (owner : UInt32) (size : ℕ) (digest : List Byte)
    (answer : UploadAnswer) (u' : Upload) : Prop where
  armed : u.armed = true
  free : u.blocks_console = false
  inactive : u.replacement.active = false
  size_ge : 260 ≤ size
  size_le : size ≤ kMaximumCapsuleBytes
  owner_ne : owner ≠ 0
  next_ne : u.next_id ≠ 0
  answer_eq : answer = { error := .none, status := u'.last }
  after : u' = { u.clear_stage with
    last := { id := u.next_id, size := size, state := .accepted, digest := digest }
    next_id := (u.next_id + 1) % 2 ^ 32
    owner := owner
    staged_at := u.now
    installed_generation := 0 }

theorem begin_cases (u : Upload) (owner : UInt32) (size : ℕ) (digest : List Byte) :
    ((u.begin owner size digest).1.error ≠ .none ∧ (u.begin owner size digest).2 = u) ∨
    Begun u owner size digest (u.begin owner size digest).1 (u.begin owner size digest).2 := by
  unfold begin
  split
  · exact .inl ⟨by simp, rfl⟩
  next harmed =>
  split
  · exact .inl ⟨by simp, rfl⟩
  next hbusy =>
  split
  · exact .inl ⟨by simp, rfl⟩
  next hsize =>
  split
  · exact .inl ⟨by simp, rfl⟩
  next hvalid =>
  split
  · exact .inl ⟨by simp, rfl⟩
  next hnext =>
  simp only [Bool.or_eq_true, not_or, Bool.not_eq_true, decide_eq_true_eq, not_lt, gt_iff_lt,
    Bool.not_eq_eq_eq_not, Bool.not_true, Bool.not_eq_false] at harmed hbusy hsize hvalid
  exact .inr ⟨harmed, hbusy.1, hbusy.2, hvalid.1.2, hsize.1, hvalid.1.1, hnext, rfl, rfl⟩

/-- A chunk that is accepted. -/
structure Chunked (u : Upload) (owner : UInt32) (id offset : ℕ) (data : List Byte)
    (answer : UploadAnswer) (u' : Upload) : Prop where
  checked : Checked u.last u.owner owner id .accepted
  fits : data.length ≤ u.last.size - u.last.received
  answer_eq : answer = { error := .none, status := u'.last }
  after : u' = { u with
    stage := copy_at u.stage u.last.received data
    last := { u.last with received := u.last.received + data.length } }

theorem chunk_cases (u : Upload) (owner : UInt32) (id offset : ℕ) (data : List Byte) :
    ((u.chunk owner id offset data).1.error ≠ .none ∧ (u.chunk owner id offset data).2 = u) ∨
    Chunked u owner id offset data (u.chunk owner id offset data).1
      (u.chunk owner id offset data).2 := by
  unfold chunk
  split
  · next hcheck => exact .inl ⟨hcheck, rfl⟩
  next hcheck =>
  rw [not_not] at hcheck
  split
  · exact .inl ⟨by simp, rfl⟩
  next hdata =>
  split
  · exact .inl ⟨by simp, rfl⟩
  next hoffset =>
  simp only [Bool.or_eq_true, decide_eq_true_eq, not_or, not_lt, gt_iff_lt] at hdata
  rw [not_not] at hoffset
  refine .inr ⟨check_eq_none hcheck, hdata.2, rfl, ?_⟩
  rw [hoffset]

/-- The bytes are what was announced: complete, with their digest, and an image for this
resident. -/
structure Good (contract : Contract) (last : UploadStatus) (capsule : List Byte) : Prop where
  length : capsule.length = last.size
  digest : sha256 capsule = last.digest
  image : (validate_image (some capsule) capsule.length contract).isOk = true

/-- A transaction that is verified. -/
structure Finished (u : Upload) (owner : UInt32) (id : ℕ) (answer : UploadAnswer) (u' : Upload) :
    Prop where
  checked : Checked u.last u.owner owner id .accepted
  complete : u.last.received = u.last.size
  digest : sha256 (u.stage.take u.last.size) = u.last.digest
  image : (validate_image (some (u.stage.take u.last.size)) u.last.size u.contract).isOk = true
  answer_eq : answer = { error := .none, status := u'.last }
  after : u' = { u with last := { u.last with state := .verified } }

/-- A finish is refused, finds the capsule wrong, or verifies it. -/
theorem finish_cases (u : Upload) (owner : UInt32) (id : ℕ) :
    ((u.finish owner id).1.error ≠ .none ∧ (u.finish owner id).2 = u) ∨
    (Checked u.last u.owner owner id .accepted ∧
      ((u.finish owner id).1.error = .digest_mismatch ∨ (u.finish owner id).1.error = .invalid_image) ∧
      (u.finish owner id).2 = u.fail (u.finish owner id).1.error) ∨
    Finished u owner id (u.finish owner id).1 (u.finish owner id).2 := by
  unfold finish
  simp only
  split
  · next hcheck => exact .inl ⟨hcheck, rfl⟩
  next hcheck =>
  rw [not_not] at hcheck
  split
  · exact .inl ⟨by simp, rfl⟩
  next hcomplete =>
  split
  · exact .inr (.inl ⟨check_eq_none hcheck, .inl rfl, rfl⟩)
  next hdigest =>
  split
  · exact .inr (.inl ⟨check_eq_none hcheck, .inr rfl, rfl⟩)
  next himage =>
  rw [not_not] at hcomplete hdigest
  simp only [Bool.not_eq_true', Bool.not_eq_false] at himage
  exact .inr (.inr ⟨check_eq_none hcheck, hcomplete, hdigest, himage, rfl, rfl⟩)

theorem commit_cases (u : Upload) (owner : UInt32) (id : ℕ) :
    ((u.commit owner id).1.error ≠ .none ∧ (u.commit owner id).2 = u) ∨
    (Checked u.last u.owner owner id .verified ∧ u.armed = true ∧
      (u.commit owner id).1 = { error := .none, status := (u.commit owner id).2.last } ∧
      (u.commit owner id).2 = { u with
        last := { u.last with state := .committing }
        commit_pending := true }) := by
  unfold commit
  split
  · next hcheck => exact .inl ⟨hcheck, rfl⟩
  next hcheck =>
  rw [not_not] at hcheck
  split
  · exact .inl ⟨by simp, rfl⟩
  · next harmed => exact .inr ⟨check_eq_none hcheck, by simpa using harmed, rfl, rfl⟩

/-- A transaction that its owner gives up. -/
structure Aborted (u : Upload) (owner : UInt32) (u' : Upload) (error : UploadError) : Prop where
  id_ne : u.last.id ≠ 0
  owner_eq : owner = u.owner
  state : u.last.state = .accepted ∨ u.last.state = .verified
  after : u' = { u.clear_stage with last := { u.last with state := .aborted, error := error } }

theorem abort_cases (u : Upload) (owner : UInt32) (id : ℕ) :
    ((u.abort owner id).1.error ≠ .none ∧ (u.abort owner id).2 = u) ∨
    ((u.abort owner id).1.error = .none ∧ id = u.last.id ∧ owner ≠ 0 ∧
      Aborted u owner (u.abort owner id).2 u.last.error) := by
  unfold abort
  split
  · exact .inl ⟨by simp, rfl⟩
  next hid =>
  split
  · exact .inl ⟨by simp, rfl⟩
  next howner =>
  split
  · exact .inl ⟨by simp, rfl⟩
  next hstate =>
  simp only [ne_eq, Bool.or_eq_true, Bool.and_eq_true, decide_eq_true_eq, not_or, not_and_or,
    not_not] at hid howner hstate
  exact .inr ⟨rfl, hid.2, howner.1, by rw [← hid.2]; exact hid.1, howner.2, hstate, rfl⟩

theorem disconnect_cases (u : Upload) (owner : UInt32) :
    u.disconnect owner = u ∨ Aborted u owner (u.disconnect owner) .disconnected := by
  unfold disconnect
  split
  · exact .inl rfl
  next howner =>
  split
  · next hstate =>
    simp only [ne_eq, Bool.or_eq_true, decide_eq_true_eq, not_or, not_not] at howner hstate
    exact .inr ⟨howner.1, howner.2, hstate, rfl⟩
  · exact .inl rfl

/-! ## The joint invariant -/

/-- The stage holds what was received for the record. -/
structure Staged (u : Upload) (bytes : List Byte) : Prop where
  id : u.last.id ≠ 0
  size_ge : 260 ≤ u.last.size
  size_le : u.last.size ≤ kMaximumCapsuleBytes
  received_le : u.last.received ≤ u.last.size
  held : u.stage.take u.last.received = bytes
  room : u.stage.length = kMaximumCapsuleBytes

/-- Where a transaction stands, with the bytes received for it. Once a replacement is
active, the bytes are in its snapshot. -/
inductive Phase (u : Upload) (bytes : List Byte) : Prop
  | idle (closed : is_open u.last.state = false) (inactive : u.replacement.bytes = 0)
      (pending : u.commit_pending = false)
  | accepted (state : u.last.state = .accepted) (staged : Staged u bytes)
      (inactive : u.replacement.bytes = 0) (pending : u.commit_pending = false)
  | verified (state : u.last.state = .verified) (staged : Staged u bytes)
      (good : Good u.contract u.last bytes) (inactive : u.replacement.bytes = 0)
      (pending : u.commit_pending = false)
  | queued (state : u.last.state = .committing) (staged : Staged u bytes)
      (good : Good u.contract u.last bytes) (inactive : u.replacement.bytes = 0)
      (pending : u.commit_pending = true)
  | replacing (state : u.last.state = .committing) (id : u.last.id ≠ 0)
      (good : Good u.contract u.last bytes) (active : u.replacement.bytes ≠ 0)
      (held : u.replacement.capsule = bytes) (size : u.replacement.bytes = bytes.length)
      (valid : (validate_image (some bytes) bytes.length u.runtime.contract).isOk = true)
      (pending : u.commit_pending = false)

variable {bytes : List Byte}

/-- The open phases are told apart by the record. -/
theorem Phase.of_accepted (h : Phase u bytes) (hs : u.last.state = .accepted) :
    Staged u bytes ∧ u.replacement.bytes = 0 ∧ u.commit_pending = false := by
  cases h with
  | accepted state staged inactive pending => exact ⟨staged, inactive, pending⟩
  | idle closed inactive pending => rw [hs] at closed; cases closed
  | _ state => rw [hs] at state; cases state

theorem Phase.of_verified (h : Phase u bytes) (hs : u.last.state = .verified) :
    Staged u bytes ∧ Good u.contract u.last bytes ∧ u.replacement.bytes = 0 ∧
      u.commit_pending = false := by
  cases h with
  | verified state staged good inactive pending => exact ⟨staged, good, inactive, pending⟩
  | idle closed inactive pending => rw [hs] at closed; cases closed
  | _ state => rw [hs] at state; cases state

theorem Phase.of_closed (h : Phase u bytes) (hs : is_open u.last.state = false) :
    u.replacement.bytes = 0 ∧ u.commit_pending = false := by
  cases h with
  | idle closed inactive pending => exact ⟨inactive, pending⟩
  | _ state => rw [state] at hs; cases hs

/-- An open transaction has an ID. -/
theorem Phase.blocks_eq (h : Phase u bytes) : u.blocks_console = is_open u.last.state := by
  refine Managed.blocks_eq fun hopen => ?_
  cases h with
  | idle closed inactive pending => rw [closed] at hopen; cases hopen
  | replacing state id => exact id
  | _ state staged => exact staged.id

/-- The stage is untouched by what changes only the state of the record. -/
theorem Staged.of_eq (h : Staged u bytes) (hstage : u'.stage = u.stage) (hid : u'.last.id = u.last.id)
    (hsize : u'.last.size = u.last.size) (hreceived : u'.last.received = u.last.received) :
    Staged u' bytes := by
  refine ⟨?_, ?_, ?_, ?_, ?_, ?_⟩
  all_goals simp only [hstage, hid, hsize, hreceived]
  exacts [h.id, h.size_ge, h.size_le, h.received_le, h.held, h.room]

theorem Good.of_eq {contract : Contract} {last last' : UploadStatus} (h : Good contract last bytes)
    (hsize : last'.size = last.size) (hdigest : last'.digest = last.digest) :
    Good contract last' bytes :=
  ⟨h.length.trans hsize.symm, h.digest.trans hdigest.symm, h.image⟩

/-! ## The session's calls keep the invariant -/

/-- A transaction starts with an empty stage. -/
theorem Phase.begun (h : Phase u bytes) {size : ℕ} {digest : List Byte} {answer : UploadAnswer}
    (hb : Begun u owner size digest answer u') : Phase u' [] := by
  obtain ⟨hinactive, hpending⟩ := h.of_closed (h.blocks_eq.symm.trans hb.free)
  rw [hb.after]
  refine .accepted rfl ?_ hinactive hpending
  exact ⟨hb.next_ne, hb.size_ge, hb.size_le, Nat.zero_le _, List.take_zero, List.length_replicate⟩

/-- An accepted chunk follows the bytes received before it. -/
theorem Phase.chunked (h : Phase u bytes) {answer : UploadAnswer}
    (hc : Chunked u owner id offset data answer u') : Phase u' (bytes ++ data) := by
  obtain ⟨staged, hinactive, hpending⟩ := h.of_accepted hc.checked.state
  rw [hc.after]
  refine .accepted hc.checked.state ?_ hinactive hpending
  have hroom := staged.room
  have hsize := staged.size_le
  have hle := staged.received_le
  have hfits := hc.fits
  refine ⟨staged.id, staged.size_ge, hsize, ?_, ?_, ?_⟩
  · change u.last.received + data.length ≤ u.last.size
    omega
  · -- the copy starts where the received bytes end
    change (copy_at u.stage u.last.received data).take (u.last.received + data.length) = _
    rw [copy_at_take _ _ (by omega), staged.held]
  · change (copy_at u.stage u.last.received data).length = _
    rw [copy_at_length]
    · exact hroom
    · rw [hroom]
      omega

/-- A failed transaction is closed. -/
theorem phase_fail (bytes : List Byte) (error : UploadError) (hinactive : u.replacement.bytes = 0) :
    Phase (u.fail error) bytes := .idle rfl hinactive rfl

theorem Phase.finished (h : Phase u bytes) {answer : UploadAnswer}
    (hf : Finished u owner id answer u') : Phase u' bytes := by
  obtain ⟨staged, hinactive, hpending⟩ := h.of_accepted hf.checked.state
  have hcapsule : u.stage.take u.last.size = bytes := by rw [← hf.complete, staged.held]
  have hlen : bytes.length = u.last.size := by
    rw [← hcapsule, List.length_take, staged.room]
    exact min_eq_left staged.size_le
  have hdigest := hf.digest
  have himage := hf.image
  rw [hcapsule] at hdigest himage
  rw [← hlen] at himage
  rw [hf.after]
  exact .verified rfl (staged.of_eq rfl rfl rfl rfl) ⟨hlen, hdigest, himage⟩ hinactive hpending

theorem Phase.spoiled (h : Phase u bytes) (hc : Checked u.last u.owner owner id .accepted)
    (error : UploadError) : Phase (u.fail error) bytes :=
  phase_fail bytes error (h.of_accepted hc.state).2.1

theorem Phase.committed (h : Phase u bytes) (hs : u.last.state = .verified) :
    Phase { u with last := { u.last with state := .committing }, commit_pending := true } bytes := by
  obtain ⟨staged, good, hinactive, hpending⟩ := h.of_verified hs
  exact .queued rfl (staged.of_eq rfl rfl rfl rfl) (good.of_eq rfl rfl) hinactive rfl

theorem Phase.aborted (h : Phase u bytes) {error : UploadError} (ha : Aborted u owner u' error) :
    Phase u' bytes := by
  have hparts : u.replacement.bytes = 0 ∧ u.commit_pending = false := by
    rcases ha.state with hs | hs
    · exact (h.of_accepted hs).2
    · exact (h.of_verified hs).2.2
  rw [ha.after]
  exact .idle rfl hparts.1 hparts.2

/-- The invariant is about the record, the stage, the queued commit and the replacement, and
about the two contracts. -/
theorem Phase.of_eq (h : Phase u bytes) (hlast : u'.last = u.last) (hstage : u'.stage = u.stage)
    (hreplacement : u'.replacement = u.replacement) (hpending : u'.commit_pending = u.commit_pending)
    (hcontract : u'.contract = u.contract)
    (hresident : u'.runtime.contract = u.runtime.contract) : Phase u' bytes := by
  have hstaged : Staged u bytes → Staged u' bytes := by
    intro staged
    exact staged.of_eq hstage (by rw [hlast]) (by rw [hlast]) (by rw [hlast])
  have hgood : Good u.contract u.last bytes → Good u'.contract u'.last bytes := by
    intro good
    rw [hcontract, hlast]
    exact good
  cases h with
  | idle closed inactive pending =>
    rw [← hlast] at closed
    rw [← hreplacement] at inactive
    exact .idle closed inactive (hpending.trans pending)
  | accepted state staged inactive pending =>
    rw [← hlast] at state
    rw [← hreplacement] at inactive
    exact .accepted state (hstaged staged) inactive (hpending.trans pending)
  | verified state staged good inactive pending =>
    rw [← hlast] at state
    rw [← hreplacement] at inactive
    exact .verified state (hstaged staged) (hgood good) inactive (hpending.trans pending)
  | queued state staged good inactive pending =>
    rw [← hlast] at state
    rw [← hreplacement] at inactive
    exact .queued state (hstaged staged) (hgood good) inactive (hpending.trans pending)
  | replacing state id good active held size valid pending =>
    rw [← hlast] at state id
    rw [← hreplacement] at active held size
    rw [← hresident] at valid
    exact .replacing state id (hgood good) active held size valid (hpending.trans pending)

theorem Phase.arm (h : Phase u bytes) (armed : Bool) : Phase { u with armed := armed } bytes :=
  h.of_eq rfl rfl rfl rfl rfl rfl

theorem Phase.tick (h : Phase u bytes) (now : UInt32) : Phase { u with now := now } bytes :=
  h.of_eq rfl rfl rfl rfl rfl rfl

theorem Phase.of_runtime (h : Phase u bytes) {runtime : Runtime}
    (hcontract : runtime.contract = u.runtime.contract) : Phase { u with runtime := runtime } bytes :=
  h.of_eq rfl rfl rfl rfl rfl hcontract

/-! ## The poll -/

/-- What a poll does to the record and to the runtime. -/
inductive Outcome (u : Upload) (u' : Upload) (accesses : List (Hardware Started)) : Prop
  | kept (state : u'.last.state = u.last.state) (runtime : u'.runtime = u.runtime)
      (installed : u'.installed_generation = u.installed_generation)
      (only : ∀ x ∈ accesses, is_pause x = true)
  | confirmed (before : u.last.state = .installed) (state : u'.last.state = .boot_confirmed)
      (runtime : u'.runtime = u.runtime) (current : u.runtime.published = u.installed_generation)
      (published : u.runtime.published ≠ 0) (returned : u.runtime.returned = u.runtime.published)
      (quiet : accesses = [])
  /-- An expired lease, a denial, a timeout or a refused request. -/
  | refused (before : is_open u.last.state = true) (state : u'.last.state = .failed)
      (error : u'.last.error ≠ .install_failed) (runtime : u'.runtime = u.runtime)
      (only : ∀ x ∈ accesses, is_pause x = true)
  | failed (before : u.last.state = .committing) (state : u'.last.state = .failed)
      (error : u'.last.error = .install_failed) (published : u'.runtime.published = 0)
      (returned : u'.runtime.returned = 0)
      (last : u'.runtime.generation.last_generation = u.runtime.generation.last_generation)
      (stopped : .stop ∈ accesses)
  | installed (before : u.last.state = .committing) (state : u'.last.state = .installed)
      (published : u'.runtime.published = u.runtime.generation.last_generation + 1)
      (returned : u'.runtime.returned = 0)
      (last : u'.runtime.generation.last_generation = u'.runtime.published)
      (generation : u'.installed_generation = u'.runtime.published)
      (stopped : .stop ∈ accesses)
      (started : .start ⟨u'.runtime.published, u'.runtime.image⟩ ∈ accesses)

/-- A poll, with the bytes received for the record. -/
structure Polled (u : Upload) (now : UInt32) (board : Board) (bytes : List Byte) (u' : Upload)
    (requested : Option UInt32) (accesses : List (Hardware Started)) : Prop where
  phase : Phase u' bytes
  same : u.account.Same u'.account
  contract : u'.contract = u.contract
  resident : u'.runtime.contract = u.runtime.contract
  made : Accesses u.armed board.parked bytes accesses
  lease : ∀ age, requested = some age → age = now - u.staged_at ∧ age < staging_timeout_ms
  outcome : Outcome u u' accesses
  /-- Flash work is the end of the transaction. -/
  flashed : (∃ x ∈ accesses, is_flash x = true) → u.last.state = .committing ∧ u.last.id ≠ 0 ∧
    is_open u'.last.state = false ∧ Good u.contract u.last bytes ∧
    (validate_image (some bytes) bytes.length u.runtime.contract).isOk = true

/-- A poll that asks at most the pause, and changes the record as `fail` does. -/
theorem polled_fail {v : Upload} {now : UInt32} {board : Board} {requested : Option UInt32}
    {accesses : List (Hardware Started)} {error : UploadError} (herror : error ≠ .install_failed)
    (hopen : is_open u.last.state = true) (hsame : u.account.Same v.account)
    (hcontract : v.contract = u.contract) (hruntime : v.runtime = u.runtime)
    (hinactive : v.replacement.bytes = 0) (honly : ∀ x ∈ accesses, is_pause x = true)
    (hlease : ∀ age, requested = some age → age = now - u.staged_at ∧ age < staging_timeout_ms) :
    Polled u now board bytes (v.fail error) requested accesses :=
  ⟨phase_fail bytes error hinactive, ⟨hsame.id, hsame.size, hsame.digest, hsame.owner, hsame.next_id⟩,
    hcontract, congrArg Runtime.contract hruntime, .pausing _ honly, hlease,
    .refused hopen rfl herror hruntime honly, fun h => absurd h (not_flash_of_pause honly)⟩

/-- The replacement is driven, after it was requested in this poll or before. -/
theorem drive_polled {v : Upload} {now : UInt32} (board : Board) (overlaps : Bool)
    {requested : Option UInt32} {ask : List (Hardware Started)}
    (hask : ask = [] ∨ ask = [.pause_request true]) (hstate : u.last.state = .committing)
    (hsame : u.account.Same v.account) (hvstate : v.last.state = .committing) (hid : u.last.id ≠ 0)
    (hcontract : v.contract = u.contract) (hruntime : v.runtime = u.runtime) (harm : v.armed = u.armed)
    (hgeneration : v.installed_generation = u.installed_generation)
    (hpending : v.commit_pending = false) (good : Good u.contract u.last bytes)
    (hactive : v.replacement.bytes ≠ 0) (hheld : v.replacement.capsule = bytes)
    (hsize : v.replacement.bytes = bytes.length)
    (hvalid : (validate_image (some bytes) bytes.length u.runtime.contract).isOk = true)
    (hlease : ∀ age, requested = some age → age = now - u.staged_at ∧ age < staging_timeout_ms) :
    Polled u now board bytes (v.drive now board overlaps).1 requested
      (ask ++ (v.drive now board overlaps).2) := by
  have hopen : is_open u.last.state = true := by rw [hstate]; rfl
  have hdriven := Replacement.poll_driven hactive (r := v.runtime)
    (by rw [hheld, hsize, hruntime]; exact hvalid) board overlaps now v.armed
  unfold drive
  generalize v.replacement.poll v.runtime board overlaps now v.armed = polled at hdriven ⊢
  obtain ⟨report, p', r', accesses⟩ := polled
  simp only at hdriven ⊢
  -- the end of an exchange, whatever was written
  have hend : ∀ (all rereads : List (Hardware Started)), Replacement.Exchanged v.runtime report r' rereads →
      p'.bytes = 0 → Accesses u.armed board.parked bytes all → .stop ∈ all →
      (∀ x ∈ rereads, x ∈ all) →
      Polled u now board bytes ({ v with
        replacement := p'
        runtime := r'
        last := { v.last with slot_touched := report.slot_touched } }.settle report.status)
        requested all := by
    intro all rereads hexchanged hinactive hmade hstop hall
    have hresident : r'.contract = u.runtime.contract := by rw [hexchanged.contract, hruntime]
    rcases hexchanged.ended with ⟨hfailed, hpublished, hlast, _⟩ | ⟨hcomplete, hpublished, hlast, hstart⟩
    · simp only [hfailed, settle]
      refine ⟨phase_fail bytes _ hinactive,
        ⟨hsame.id, hsame.size, hsame.digest, hsame.owner, hsame.next_id⟩, hcontract, hresident, hmade,
        hlease, ?_, fun _ => ⟨hstate, hid, rfl, good, hvalid⟩⟩
      exact .failed hstate rfl rfl hpublished hexchanged.returned (by rw [← hruntime]; exact hlast) hstop
    · simp only [hcomplete, settle]
      refine ⟨.idle rfl hinactive hpending,
        ⟨hsame.id, hsame.size, hsame.digest, hsame.owner, hsame.next_id⟩, hcontract, hresident, hmade,
        hlease, ?_, fun _ => ⟨hstate, hid, rfl, good, hvalid⟩⟩
      exact .installed hstate rfl (by rw [← hruntime]; exact hpublished) hexchanged.returned hlast rfl
        hstop (hall _ hstart)
  cases hdriven with
  | waiting status accesses hpause =>
    simp only [status, settle]
    refine ⟨?_, ⟨hsame.id, hsame.size, hsame.digest, hsame.owner, hsame.next_id⟩, hcontract,
      congrArg Runtime.contract hruntime, .pausing _ (pause_after hask hpause), hlease, ?_,
      fun h => absurd h (not_flash_of_pause (pause_after hask hpause))⟩
    · refine .replacing hvstate (fun h => hid (hsame.id.symm.trans h)) ?_ hactive hheld hsize ?_
        hpending
      · have hgood : Good u.contract v.last bytes := good.of_eq hsame.size hsame.digest
        rw [← hcontract] at hgood
        exact hgood.of_eq rfl rfl
      · change (validate_image _ _ v.runtime.contract).isOk = true
        rw [hruntime]
        exact hvalid
    · exact .kept (hvstate.trans hstate.symm) hruntime hgeneration (pause_after hask hpause)
  | refused status accesses hpause =>
    rcases status with status | status <;>
      simp only [status, settle] <;>
      exact polled_fail (by decide) hopen
        ⟨hsame.id, hsame.size, hsame.digest, hsame.owner, hsame.next_id⟩ hcontract hruntime rfl
        (pause_after hask hpause) hlease
  | unwritten arm park r' exchanged =>
    refine hend _ [] exchanged rfl (.refused ask hask (by rw [← harm]; exact arm) park) (by simp) (by simp)
  | written arm park r' whole writes rereads hwrites hrereads exchanged =>
    rw [hheld] at hwrites hrereads
    have hmade : Accesses u.armed board.parked bytes
        (ask ++ [.pause_parked true, .stop, .flash_begin true] ++ writes ++ [.flash_end]
          ++ rereads ++ [.pause_release]) :=
      .installing ask hask (by rw [← harm]; exact arm) park whole writes rereads hwrites hrereads
    have hlist : ask ++ ([.pause_parked true, .stop, .flash_begin true] ++ writes
        ++ [.flash_end] ++ rereads ++ [.pause_release])
        = ask ++ [.pause_parked true, .stop, .flash_begin true] ++ writes ++ [.flash_end]
          ++ rereads ++ [.pause_release] := by simp
    rw [hlist]
    refine hend _ rereads exchanged rfl hmade (by simp) ?_
    intro x hx
    simp [hx]

/-- **A poll keeps the joint invariant**, requests nothing from an expired stage, and asks of
the hardware nothing, the pause, or one exchange for the verified bytes. -/
theorem Phase.polled (h : Phase u bytes) (now : UInt32) (board : Board) (overlaps : Bool) :
    Polled u now board bytes (u.poll now board overlaps).1 (u.poll now board overlaps).2.1
      (u.poll now board overlaps).2.2 := by
  have hquiet : Polled u now board bytes { u with now := now } none [] :=
    ⟨h.tick now, .refl _, rfl, rfl, .pausing _ (by simp), by simp, .kept rfl rfl rfl (by simp), by simp⟩
  unfold poll
  simp only
  split
  · exact hquiet
  split
  · next hconfirm =>
    simp only [Bool.and_eq_true, decide_eq_true_eq, Runtime.active_generation,
      Runtime.loop_returned] at hconfirm
    obtain ⟨⟨⟨hstate, _⟩, hcurrent⟩, hpublished, hreturned⟩ := hconfirm
    obtain ⟨hinactive, hpending⟩ := h.of_closed (by rw [hstate]; rfl)
    exact ⟨.idle rfl hinactive hpending, ⟨rfl, rfl, rfl, rfl, rfl⟩, rfl, rfl, .pausing _ (by simp),
      by simp, .confirmed hstate rfl rfl (of_decide_eq_true hcurrent) hpublished hreturned rfl, by simp⟩
  split
  · next hexpired =>
    simp only [expired, Bool.and_eq_true, blocks_console, Replacement.active, decide_eq_true_eq,
      Bool.not_eq_true', decide_eq_false_iff_not, not_not] at hexpired
    obtain ⟨⟨⟨_, hopen⟩, hinactive⟩, _⟩ := hexpired
    exact polled_fail (by decide) hopen (.refl _) rfl rfl hinactive (by simp) (by simp)
  next hfresh =>
  split
  · exact hquiet
  next hstate =>
  rw [not_not] at hstate
  have hopen : is_open u.last.state = true := by rw [hstate]; rfl
  cases h with
  | idle closed inactive pending => rw [hopen] at closed; cases closed
  | accepted state staged inactive pending => rw [hstate] at state; cases state
  | verified state staged good inactive pending => rw [hstate] at state; cases state
  | replacing state id good active held size valid pending =>
    simp only [pending, Bool.false_eq_true, if_false]
    exact drive_polled board overlaps (.inl rfl) hstate (.refl _) hstate id rfl rfl rfl rfl rfl good
      active held size valid (by simp)
  | queued state staged good inactive pending =>
    simp only [pending, if_true]
    cases harmed : u.armed with
    | false =>
      simp only [Bool.not_false, if_true]
      exact polled_fail (by decide) hopen (.refl _) rfl rfl inactive (by simp) (by simp)
    | true =>
      simp only [Bool.not_true, Bool.false_eq_true, if_false]
      -- the request is made, so the lease runs
      have hlease : ∀ age, some (now - u.staged_at) = some age →
          age = now - u.staged_at ∧ age < staging_timeout_ms := by
        intro age hage
        cases hage
        refine ⟨rfl, ?_⟩
        by_contra hold
        refine hfresh ?_
        simp only [expired, Bool.and_eq_true, blocks_console, Replacement.active, decide_eq_true_eq,
          Bool.not_eq_true', decide_eq_false_iff_not, not_not]
        exact ⟨⟨⟨staged.id, hopen⟩, inactive⟩, UInt32.not_lt.mp hold⟩
      have hroom : u.last.size ≤ u.stage.length := by rw [staged.room]; exact staged.size_le
      have hlen := good.length
      have hcapsule : u.stage.take u.last.size = bytes := by
        have hreceived : bytes.length = u.last.received := by
          rw [← staged.held, List.length_take, staged.room]
          exact min_eq_left (staged.received_le.trans staged.size_le)
        rw [← hlen, hreceived, staged.held]
      rcases Replacement.request_cases inactive u.runtime board u.stage u.last.size hroom now with
        ⟨p', accesses, hrequest, hinactive, haccesses⟩ | ⟨p', hrequest, hbytes, hheld, hvalid⟩
      · rw [hrequest]
        refine polled_fail (by decide) hopen (.refl _) rfl rfl hinactive ?_ hlease
        rcases haccesses with rfl | rfl
        · simp
        · simp [is_pause]
      · rw [hrequest]
        rw [hcapsule, ← hlen] at hvalid
        have hsize : p'.bytes = bytes.length := hbytes.trans hlen.symm
        have hne : p'.bytes ≠ 0 := by
          have hge := staged.size_ge
          omega
        exact drive_polled board overlaps (.inr rfl) hstate ⟨rfl, rfl, rfl, rfl, rfl⟩ hstate staged.id
          rfl rfl harmed.symm rfl rfl good hne (hheld.trans hcapsule) hsize hvalid hlease

end Upload

end Firmingo.Managed.Stateful
