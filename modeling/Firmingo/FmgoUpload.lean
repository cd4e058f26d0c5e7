/-
The upload service of the managed resident: `experiments/managed_sketch/fmgo_upload.h`
and `fmgo_upload.cpp`.

The service keeps one record of the boot (`last`), a capsule stage and a switch. The arm
input is a field: its level may change between two calls, and every call reads it at most
once. The session's calls only stage, verify and queue; `poll` alone reaches the hardware.

`Phase` is the joint invariant of the record, the stage, the queued commit and the switch,
and the theorems of the second half say that every call keeps it.
-/
import Firmingo.Endpoint
import Firmingo.UploadLog

set_option autoImplicit false

open Octets

namespace Firmingo.Managed

/-- `FmgoUpload`, with the stage and the switch it refers to. -/
structure FmgoUpload where
  api : ℕ
  stage : CapsuleStage := {}
  switching : SketchSwitch := {}
  owner : UInt32 := 0
  next_id : ℕ := 1
  commit_pending : Bool := false
  last : UploadStatus := {}
  armed : Bool := false
  deriving DecidableEq, Repr

namespace FmgoUpload

/-- `target`. -/
def target : UploadTarget :=
  ⟨1, some (ascii "nano-managed-v1"), kProofStageBytes, 1024, some (ascii "physical-d2-gnd")⟩

/-- `blocks_console`. -/
def blocks_console (u : FmgoUpload) : Bool := u.last.id ≠ 0 && is_open u.last.state

/-- `check`. -/
def check (u : FmgoUpload) (owner : UInt32) (id : ℕ) (expected : UploadState) : UploadError :=
  check_record u.last u.owner owner id expected

/-- `begin`. -/
def begin (u : FmgoUpload) (owner : UInt32) (size : ℕ) (digest : List Byte) :
    UploadAnswer × FmgoUpload :=
  if !u.armed then ({ error := .unauthorized }, u)
  else if u.blocks_console || u.stage.active || u.switching.active then ({ error := .busy }, u)
  else if size > kProofStageBytes then ({ error := .insufficient_storage }, u)
  else if owner = 0 || size ≤ kCodeOffset || u.api = 0 then ({ error := .invalid_argument }, u)
  -- Never reuse an ID in this boot.
  else if u.next_id = 0 then ({ error := .io_error }, u)
  else
    match u.stage.begin owner true size digest u.api with
    | (.ok, stage) =>
      let last : UploadStatus := { id := u.next_id, size := size, state := .accepted, digest := digest }
      ({ error := .none, status := last }, { u with
        stage := stage
        last := last
        next_id := (u.next_id + 1) % 2 ^ 32
        owner := owner })
    | (_, stage) => ({ error := .io_error }, { u with stage := stage })

/-- `chunk`. -/
def chunk (u : FmgoUpload) (owner : UInt32) (id offset : ℕ) (data : List Byte) :
    UploadAnswer × FmgoUpload :=
  if u.check owner id .accepted ≠ .none then ({ error := u.check owner id .accepted }, u)
  else if data = [] || data.length > target.max_chunk then ({ error := .invalid_argument }, u)
  else if offset ≠ u.last.received then ({ error := .wrong_offset }, u)
  else if data.length > u.last.size - u.last.received then ({ error := .invalid_argument }, u)
  else
    match u.stage.append owner offset data with
    | (.ok, stage) =>
      let last := { u.last with received := u.last.received + data.length }
      ({ error := .none, status := last }, { u with stage := stage, last := last })
    | (_, stage) => ({ error := .io_error }, { u with stage := stage })

/-- `fail`. -/
def fail (u : FmgoUpload) (error : UploadError) : FmgoUpload :=
  { u with
    stage := if u.stage.active then (u.stage.abort u.owner).2 else u.stage
    commit_pending := false
    last := { u.last with state := .failed, error := error } }

/-- `finish`. -/
def finish (u : FmgoUpload) (owner : UInt32) (id : ℕ) : UploadAnswer × FmgoUpload :=
  if u.check owner id .accepted ≠ .none then ({ error := u.check owner id .accepted }, u)
  else
    match u.stage.finish owner with
    | (.incomplete, stage) => ({ error := .incomplete }, { u with stage := stage })
    | (.ok, stage) =>
      let last := { u.last with state := .verified }
      ({ error := .none, status := last }, { u with stage := stage, last := last })
    | (.digest_mismatch, stage) =>
      ({ error := .digest_mismatch }, { u with stage := stage }.fail .digest_mismatch)
    | (_, stage) => ({ error := .invalid_image }, { u with stage := stage }.fail .invalid_image)

/-- `commit`. No pause, erase or program under the session's lock. -/
def commit (u : FmgoUpload) (owner : UInt32) (id : ℕ) : UploadAnswer × FmgoUpload :=
  if u.check owner id .verified ≠ .none then ({ error := u.check owner id .verified }, u)
  else if !u.armed then ({ error := .unauthorized }, u)
  else
    let last := { u.last with state := .committing }
    ({ error := .none, status := last }, { u with last := last, commit_pending := true })

/-- `abort`. -/
def abort (u : FmgoUpload) (owner : UInt32) (id : ℕ) : UploadAnswer × FmgoUpload :=
  if id = 0 || id ≠ u.last.id then ({ error := .wrong_target }, u)
  else if owner = 0 || owner ≠ u.owner then ({ error := .wrong_owner }, u)
  else if u.last.state ≠ .accepted && u.last.state ≠ .verified then ({ error := .invalid_state }, u)
  else
    match u.stage.abort owner with
    | (.ok, stage) =>
      let last := { u.last with state := .aborted }
      ({ error := .none, status := last }, { u with stage := stage, last := last })
    | (_, stage) => ({ error := .io_error }, { u with stage := stage })

/-- `status`. -/
def status (u : FmgoUpload) (id : ℕ) : UploadAnswer :=
  if id = 0 || id ≠ u.last.id then { error := .wrong_target } else { error := .none, status := u.last }

/-- `disconnect`. A commit is irrevocable from the socket's perspective. -/
def disconnect (u : FmgoUpload) (owner : UInt32) : FmgoUpload :=
  if owner ≠ u.owner || u.last.id = 0 then u
  else if u.last.state = .accepted || u.last.state = .verified then
    { u with
      stage := (u.stage.abort owner).2
      last := { u.last with state := .aborted, error := .disconnected } }
  else u

/-- The end of `poll`: what the switch reports goes into the record. -/
def settle (u : FmgoUpload) : SwitchStatus → FmgoUpload
  | .complete => { u with last := { u.last with state := .installed } }
  | .denied => u.fail .unauthorized
  | .timeout => u.fail .park_timeout
  | .install_failed => u.fail .install_failed
  | .waiting => u
  | .idle => u.fail .io_error

/-- The second half of `poll`: the switch is driven. -/
def drive (u : FmgoUpload) (now : UInt32) (board : Board) : FmgoUpload × List (Hardware ImageInfo) :=
  let (report, switching, stage, accesses) := u.switching.poll u.stage board now u.armed
  ({ u with
      switching := switching
      stage := stage
      last := { u.last with slot_touched := report.slot_touched } }.settle report.status, accesses)

/-- `poll`, with what `generation_returned_` answers. -/
def poll (u : FmgoUpload) (now : UInt32) (board : Board) (generation_returned : Bool) :
    FmgoUpload × List (Hardware ImageInfo) :=
  if u.last.id = 0 then (u, [])
  else if u.last.state = .installed && generation_returned then
    ({ u with last := { u.last with state := .boot_confirmed } }, [])
  else if u.last.state ≠ .committing then (u, [])
  else if u.commit_pending then
    let u := { u with commit_pending := false }
    if !u.armed then (u.fail .unauthorized, [])
    else
      match u.switching.begin u.stage board u.owner u.api now with
      | (false, switching, accesses) => ({ u with switching := switching }.fail .io_error, accesses)
      | (true, switching, accesses) =>
        let (u, more) := { u with switching := switching }.drive now board
        (u, accesses ++ more)
  else u.drive now board

instance : UploadService FmgoUpload where
  target := target
  begin := begin
  chunk := chunk
  finish := finish
  commit := commit
  abort := abort
  status := status
  disconnect := disconnect
  blocks_console := blocks_console

/-! ## What each call can do -/

variable {u : FmgoUpload} {owner : UInt32} {id offset : ℕ} {data : List Byte}

/-- A transaction that begins: all was quiet, and the record is new. -/
structure Begun (u : FmgoUpload) (owner : UInt32) (size : ℕ) (digest : List Byte)
    (answer : UploadAnswer) (u' : FmgoUpload) : Prop where
  armed : u.armed = true
  free : u.blocks_console = false
  stage : u.stage.owner = 0
  switching : u.switching.owner = 0
  size_gt : kCodeOffset < size
  size_le : size ≤ kProofStageBytes
  owner_ne : owner ≠ 0
  api_ne : u.api ≠ 0
  next_ne : u.next_id ≠ 0
  answer_eq : answer = { error := .none, status := u'.last }
  after : u' = { u with
    stage := { u.stage with
      owner := owner
      api_address := u.api
      expected_bytes := size
      received := 0
      verified := false
      expected_digest := digest }
    last := { id := u.next_id, size := size, state := .accepted, digest := digest }
    next_id := (u.next_id + 1) % 2 ^ 32
    owner := owner }

/-- A begin is refused and changes nothing, or opens a transaction. -/
theorem begin_cases (u : FmgoUpload) (owner : UInt32) (size : ℕ) (digest : List Byte) :
    ((u.begin owner size digest).1.error ≠ .none ∧ (u.begin owner size digest).2 = u) ∨
    Begun u owner size digest (u.begin owner size digest).1 (u.begin owner size digest).2 := by
  unfold begin
  split
  · exact .inl ⟨by simp, rfl⟩
  next harmed =>
  split
  · exact .inl ⟨by simp, rfl⟩
  next hbusy =>
  split
  · exact .inl ⟨by simp, rfl⟩
  next hsize =>
  split
  · exact .inl ⟨by simp, rfl⟩
  next hvalid =>
  split
  · exact .inl ⟨by simp, rfl⟩
  next hnext =>
  simp only [Bool.or_eq_true, not_or, Bool.not_eq_true, CapsuleStage.active, SketchSwitch.active,
    decide_eq_true_eq, not_not, ne_eq, not_le, not_lt,
    Bool.not_eq_false, Bool.not_eq_eq_eq_not, Bool.not_true] at harmed hbusy hsize hvalid
  obtain ⟨⟨hfree, hstage⟩, hswitch⟩ := hbusy
  obtain ⟨⟨howner, hgt⟩, hapi⟩ := hvalid
  have hok : u.stage.begin owner true size digest u.api = (.ok, { u.stage with
      owner := owner
      api_address := u.api
      expected_bytes := size
      received := 0
      verified := false
      expected_digest := digest }) := by
    simp [CapsuleStage.begin, hstage, howner, hapi, hgt, hsize]
  simp only [hok]
  exact .inr ⟨harmed, hfree, hstage, hswitch, hgt, hsize, howner, hapi, hnext, rfl, rfl⟩

/-- A chunk that is accepted. -/
structure Chunked (u : FmgoUpload) (owner : UInt32) (id offset : ℕ) (data : List Byte)
    (answer : UploadAnswer) (u' : FmgoUpload) : Prop where
  checked : Checked u.last u.owner owner id .accepted
  some_data : data ≠ []
  offset_eq : offset = u.last.received
  fits : data.length ≤ u.last.size - u.last.received
  answer_eq : answer = { error := .none, status := u'.last }
  after : u' = { u with
    stage := { u.stage with
      bytes := copy_at u.stage.bytes u.stage.received data
      received := u.stage.received + data.length }
    last := { u.last with received := u.last.received + data.length } }

/-- A refused append leaves the stage alone. -/
theorem append_cases (s : CapsuleStage) (owner : UInt32) (offset : ℕ) (data : List Byte) :
    ((s.append owner offset data).1 ≠ .ok ∧ (s.append owner offset data).2 = s) ∨
    s.append owner offset data = (.ok, { s with
      bytes := copy_at s.bytes s.received data
      received := s.received + data.length }) := by
  unfold CapsuleStage.append
  repeat' split
  all_goals first | exact .inr rfl | exact .inl ⟨by simp, rfl⟩

/-- A chunk is refused and changes nothing, or is stored. -/
theorem chunk_cases (u : FmgoUpload) (owner : UInt32) (id offset : ℕ) (data : List Byte) :
    ((u.chunk owner id offset data).1.error ≠ .none ∧ (u.chunk owner id offset data).2 = u) ∨
    Chunked u owner id offset data (u.chunk owner id offset data).1
      (u.chunk owner id offset data).2 := by
  unfold chunk
  split
  · next hcheck => exact .inl ⟨hcheck, rfl⟩
  next hcheck =>
  rw [not_not] at hcheck
  split
  · exact .inl ⟨by simp, rfl⟩
  next hdata =>
  split
  · exact .inl ⟨by simp, rfl⟩
  next hoffset =>
  split
  · exact .inl ⟨by simp, rfl⟩
  next hfits =>
  simp only [Bool.or_eq_true, decide_eq_true_eq, not_or] at hdata
  rcases append_cases u.stage owner offset data with ⟨hbad, hsame⟩ | hok
  · generalize u.stage.append owner offset data = appended at hbad hsame
    obtain ⟨result, stage⟩ := appended
    simp only at hbad hsame
    subst hsame
    split
    · next heq =>
      cases heq
      exact absurd rfl hbad
    · next heq =>
      cases heq
      exact .inl ⟨by simp, rfl⟩
  · simp only [hok]
    exact .inr ⟨check_eq_none hcheck, hdata.1, not_not.mp hoffset, not_lt.mp hfits, rfl, rfl⟩

/-- What verification of a stage means. -/
structure Sealed (s : CapsuleStage) (owner : UInt32) : Prop where
  owner_eq : s.owner = owner
  complete : s.received = s.expected_bytes
  digest : sha256 s.capsule = s.expected_digest
  image : ∃ info, validate_image (some s.capsule) s.expected_bytes s.api_address = .ok info ∧
    s.expected_bytes = kCodeOffset + info.code_bytes

/-- The ways of `finish` of the stage; a capsule that is not good is cleared. -/
theorem finish_stage_cases (s : CapsuleStage) (owner : UInt32) :
    s.finish owner = (.incomplete, s) ∨
    ((s.finish owner = (.invalid_state, s) ∨ s.finish owner = (.wrong_owner, s)) ∧
      (s.owner = 0 ∨ s.verified = true ∨ s.owner ≠ owner)) ∨
    (s.finish owner = (.digest_mismatch, {}) ∨ s.finish owner = (.invalid_image, {})) ∨
    (Sealed s owner ∧ s.finish owner = (.ok, { s with verified := true })) := by
  unfold CapsuleStage.finish
  split
  · next hstate =>
    simp only [Bool.or_eq_true, decide_eq_true_eq] at hstate
    exact .inr (.inl ⟨.inl rfl, hstate.imp id .inl⟩)
  split
  · next howner => exact .inr (.inl ⟨.inr rfl, .inr (.inr (Ne.symm howner))⟩)
  next howner =>
  split
  · exact .inl rfl
  next hcomplete =>
  split
  · exact .inr (.inr (.inl (.inl rfl)))
  next hdigest =>
  split
  · exact .inr (.inr (.inl (.inr rfl)))
  next info hinfo =>
  split
  · exact .inr (.inr (.inl (.inr rfl)))
  next hsize =>
  rw [not_not] at howner hcomplete hdigest hsize
  exact .inr (.inr (.inr ⟨⟨howner.symm, hcomplete, hdigest, info, hinfo, hsize⟩, rfl⟩))

/-- A transaction that is verified. -/
structure Finished (u : FmgoUpload) (owner : UInt32) (id : ℕ) (answer : UploadAnswer)
    (u' : FmgoUpload) : Prop where
  checked : Checked u.last u.owner owner id .accepted
  sealed : Sealed u.stage owner
  answer_eq : answer = { error := .none, status := u'.last }
  after : u' = { u with
    stage := { u.stage with verified := true }
    last := { u.last with state := .verified } }

/-- A transaction that fails verification. -/
structure Spoiled (u : FmgoUpload) (owner : UInt32) (id : ℕ) (answer : UploadAnswer)
    (u' : FmgoUpload) : Prop where
  checked : Checked u.last u.owner owner id .accepted
  error_ne : answer.error ≠ .none
  after : ∃ stage : CapsuleStage, (stage = {} ∨
    stage = u.stage ∧ (u.stage.owner ≠ owner ∨ u.stage.verified = true)) ∧
    u' = { u with stage := stage }.fail answer.error

/-- A finish is refused, or spoils the transaction, or verifies the capsule. -/
theorem finish_cases (u : FmgoUpload) (owner : UInt32) (id : ℕ) :
    ((u.finish owner id).1.error ≠ .none ∧ (u.finish owner id).2 = u) ∨
    Spoiled u owner id (u.finish owner id).1 (u.finish owner id).2 ∨
    Finished u owner id (u.finish owner id).1 (u.finish owner id).2 := by
  unfold finish
  split
  · next hcheck => exact .inl ⟨hcheck, rfl⟩
  next hcheck =>
  rw [not_not] at hcheck
  have hchecked := check_eq_none hcheck
  rcases finish_stage_cases u.stage owner with hstage | ⟨hstage, hwhy⟩ | hstage | ⟨hsealed, hstage⟩
  · simp only [hstage]
    exact .inl ⟨by simp, trivial⟩
  · have hwhy' : u.stage.owner ≠ owner ∨ u.stage.verified = true := by
      rcases hwhy with h0 | hverified | hne
      · exact .inl (by rw [h0]; exact Ne.symm hchecked.owner_ne)
      · exact .inr hverified
      · exact .inl hne
    rcases hstage with hstage | hstage <;> simp only [hstage] <;>
      exact .inr (.inl ⟨hchecked, by simp, u.stage, .inr ⟨rfl, hwhy'⟩, rfl⟩)
  · rcases hstage with hstage | hstage <;> simp only [hstage] <;>
      exact .inr (.inl ⟨hchecked, by simp, {}, .inl rfl, rfl⟩)
  · simp only [hstage]
    exact .inr (.inr ⟨hchecked, hsealed, rfl, rfl⟩)

/-- A commit needs the arm input, and only queues the work. -/
theorem commit_cases (u : FmgoUpload) (owner : UInt32) (id : ℕ) :
    ((u.commit owner id).1.error ≠ .none ∧ (u.commit owner id).2 = u) ∨
    (Checked u.last u.owner owner id .verified ∧ u.armed = true ∧
      (u.commit owner id).1 = { error := .none, status := (u.commit owner id).2.last } ∧
      (u.commit owner id).2 = { u with
        last := { u.last with state := .committing }
        commit_pending := true }) := by
  unfold commit
  split
  · next hcheck => exact .inl ⟨hcheck, rfl⟩
  next hcheck =>
  rw [not_not] at hcheck
  split
  · exact .inl ⟨by simp, rfl⟩
  · next harmed => exact .inr ⟨check_eq_none hcheck, by simpa using harmed, rfl, rfl⟩

/-- A transaction that its owner gives up. -/
structure Aborted (u : FmgoUpload) (owner : UInt32) (u' : FmgoUpload) (error : UploadError) :
    Prop where
  id_ne : u.last.id ≠ 0
  owner_eq : owner = u.owner
  state : u.last.state = .accepted ∨ u.last.state = .verified
  after : u' = { u with
    stage := (u.stage.abort owner).2
    last := { u.last with state := .aborted, error := error } }

/-- Only the owner aborts, and only before the commit. -/
theorem abort_cases (u : FmgoUpload) (owner : UInt32) (id : ℕ) :
    ((u.abort owner id).1.error ≠ .none ∧ (u.abort owner id).2 = u) ∨
    ((u.abort owner id).1.error = .none ∧ id = u.last.id ∧ owner ≠ 0 ∧
      Aborted u owner (u.abort owner id).2 u.last.error) := by
  unfold abort
  split
  · exact .inl ⟨by simp, rfl⟩
  next hid =>
  split
  · exact .inl ⟨by simp, rfl⟩
  next howner =>
  split
  · exact .inl ⟨by simp, rfl⟩
  next hstate =>
  simp only [ne_eq, Bool.or_eq_true, Bool.and_eq_true, decide_eq_true_eq, not_or, not_and_or,
    not_not] at hid howner hstate
  have hrefused : (u.stage.abort owner).1 ≠ .ok → (u.stage.abort owner).2 = u.stage := by
    unfold CapsuleStage.abort
    split
    · exact fun _ => rfl
    split
    · exact fun _ => rfl
    · exact fun h => absurd rfl h
  split
  · next stage hok =>
    refine .inr ⟨rfl, hid.2, howner.1, by rw [← hid.2]; exact hid.1, howner.2, hstate, ?_⟩
    rw [hok]
  · next result stage hbad hne =>
    have hstage : stage = u.stage := by
      have hsame := hrefused (by rw [hne]; exact hbad)
      rw [hne] at hsame
      exact hsame
    refine .inl ⟨by simp, ?_⟩
    rw [hstage]

theorem disconnect_cases (u : FmgoUpload) (owner : UInt32) :
    u.disconnect owner = u ∨ Aborted u owner (u.disconnect owner) .disconnected := by
  unfold disconnect
  split
  · exact .inl rfl
  next howner =>
  split
  · next hstate =>
    simp only [ne_eq, Bool.or_eq_true, decide_eq_true_eq, not_or, not_not] at howner hstate
    exact .inr ⟨howner.2, howner.1, hstate, rfl⟩
  · exact .inl rfl

/-! ## The joint invariant -/

/-- The capsule is what was announced: complete, with its digest, and an image for this
resident. -/
structure Good (api : ℕ) (last : UploadStatus) (capsule : List Byte) : Prop where
  length : capsule.length = last.size
  digest : sha256 capsule = last.digest
  image : ∃ info, validate_image (some capsule) capsule.length api = .ok info ∧
    capsule.length = kCodeOffset + info.code_bytes

/-- The stage holds what was received for the record. -/
structure Staged (u : FmgoUpload) (bytes : List Byte) : Prop where
  id : u.last.id ≠ 0
  owner : u.stage.owner = u.owner
  owner_ne : u.owner ≠ 0
  api : u.stage.api_address = u.api
  api_ne : u.api ≠ 0
  expected : u.stage.expected_bytes = u.last.size
  size_gt : kCodeOffset < u.last.size
  size_le : u.last.size ≤ kProofStageBytes
  received : u.stage.received = u.last.received
  received_le : u.last.received ≤ u.last.size
  digest : u.stage.expected_digest = u.last.digest
  held : u.stage.bytes.take u.last.received = bytes
  room : u.stage.bytes.length = kProofStageBytes

/-- Where a transaction stands, with the bytes received for it. -/
inductive Phase (u : FmgoUpload) (bytes : List Byte) : Prop
  | idle (closed : is_open u.last.state = false) (stage : u.stage.owner = 0)
      (room : u.stage.bytes.length = kProofStageBytes) (switching : u.switching.owner = 0)
      (pending : u.commit_pending = false)
  | accepted (state : u.last.state = .accepted) (staged : Staged u bytes)
      (verified : u.stage.verified = false) (switching : u.switching.owner = 0)
      (pending : u.commit_pending = false)
  | verified (state : u.last.state = .verified) (staged : Staged u bytes)
      (verified : u.stage.verified = true) (good : Good u.api u.last bytes)
      (switching : u.switching.owner = 0) (pending : u.commit_pending = false)
  | queued (state : u.last.state = .committing) (staged : Staged u bytes)
      (verified : u.stage.verified = true) (good : Good u.api u.last bytes)
      (switching : u.switching.owner = 0) (pending : u.commit_pending = true)
  | switching (state : u.last.state = .committing) (staged : Staged u bytes)
      (verified : u.stage.verified = true) (good : Good u.api u.last bytes)
      (switching : u.switching.owner = u.owner) (api : u.switching.api_address = u.api)
      (pending : u.commit_pending = false)

variable {bytes : List Byte}

/-- The state of the record, and whether the stage is verified, are not part of it. -/
theorem Staged.of_eq {v : FmgoUpload} (h : Staged u bytes)
    (hstage : v.stage = { u.stage with verified := v.stage.verified }) (howner : v.owner = u.owner)
    (hapi : v.api = u.api) (hid : v.last.id = u.last.id) (hsize : v.last.size = u.last.size)
    (hreceived : v.last.received = u.last.received) (hdigest : v.last.digest = u.last.digest) :
    Staged v bytes := by
  refine ⟨?_, ?_, ?_, ?_, ?_, ?_, ?_, ?_, ?_, ?_, ?_, ?_, ?_⟩
  all_goals rw [hstage] at *
  all_goals simp only [howner, hapi, hid, hsize, hreceived, hdigest]
  exacts [h.id, h.owner, h.owner_ne, h.api, h.api_ne, h.expected, h.size_gt, h.size_le, h.received,
    h.received_le, h.digest, h.held, h.room]

/-- The open phases are told apart by the record. -/
theorem Phase.of_accepted (h : Phase u bytes) (hs : u.last.state = .accepted) :
    Staged u bytes ∧ u.stage.verified = false ∧ u.switching.owner = 0 ∧ u.commit_pending = false := by
  cases h with
  | accepted state staged verified switching pending => exact ⟨staged, verified, switching, pending⟩
  | idle closed stage room switching pending => rw [hs] at closed; cases closed
  | _ state => rw [hs] at state; cases state

theorem Phase.of_verified (h : Phase u bytes) (hs : u.last.state = .verified) :
    Staged u bytes ∧ u.stage.verified = true ∧ Good u.api u.last bytes ∧ u.switching.owner = 0 ∧
      u.commit_pending = false := by
  cases h with
  | verified state staged verified good switching pending =>
    exact ⟨staged, verified, good, switching, pending⟩
  | idle closed stage room switching pending => rw [hs] at closed; cases closed
  | _ state => rw [hs] at state; cases state

/-- A commit is queued, or the switch has taken it over. -/
theorem Phase.of_committing (h : Phase u bytes) (hs : u.last.state = .committing) :
    Staged u bytes ∧ u.stage.verified = true ∧ Good u.api u.last bytes ∧
      (u.switching.owner = 0 ∧ u.commit_pending = true ∨
        u.switching.owner = u.owner ∧ u.switching.api_address = u.api ∧ u.commit_pending = false) := by
  cases h with
  | queued state staged verified good switching pending =>
    exact ⟨staged, verified, good, .inl ⟨switching, pending⟩⟩
  | switching state staged verified good switching api pending =>
    exact ⟨staged, verified, good, .inr ⟨switching, api, pending⟩⟩
  | idle closed stage room switching pending => rw [hs] at closed; cases closed
  | _ state => rw [hs] at state; cases state

theorem Phase.of_closed (h : Phase u bytes) (hs : is_open u.last.state = false) :
    u.stage.owner = 0 ∧ u.stage.bytes.length = kProofStageBytes ∧ u.switching.owner = 0 ∧
      u.commit_pending = false := by
  cases h with
  | idle closed stage room switching pending => exact ⟨stage, room, switching, pending⟩
  | _ state => rw [state] at hs; cases hs

/-- An open transaction has an ID. -/
theorem Phase.blocks_eq (h : Phase u bytes) : u.blocks_console = is_open u.last.state := by
  refine Managed.blocks_eq fun hopen => ?_
  cases h with
  | idle closed stage room switching pending => rw [closed] at hopen; cases hopen
  | accepted state staged verified switching pending => exact staged.id
  | _ state staged => exact staged.id

/-- A closed transaction, whatever it was. -/
theorem phase_closed {u : FmgoUpload} (bytes : List Byte) (hclosed : is_open u.last.state = false)
    (hstage : u.stage = {}) (hswitch : u.switching.owner = 0) (hpending : u.commit_pending = false) :
    Phase u bytes :=
  .idle hclosed (by rw [hstage]) (by rw [hstage]; exact List.length_replicate) hswitch hpending

/-! ## The session's calls keep the invariant -/

variable {answer : UploadAnswer} {u' : FmgoUpload}

/-- A transaction starts with an empty stage. -/
theorem Phase.begun (h : Phase u bytes) {size : ℕ} {digest : List Byte}
    (hb : Begun u owner size digest answer u') : Phase u' [] := by
  obtain ⟨_, room, switching, pending⟩ := h.of_closed (h.blocks_eq.symm.trans hb.free)
  rw [hb.after]
  refine .accepted rfl ?_ rfl switching pending
  exact ⟨hb.next_ne, rfl, hb.owner_ne, rfl, hb.api_ne, rfl, hb.size_gt, hb.size_le, rfl,
    Nat.zero_le _, rfl, List.take_zero, room⟩

/-- An accepted chunk follows the bytes received before it. -/
theorem Phase.chunked (h : Phase u bytes)
    (hc : Chunked u owner id offset data answer u') : Phase u' (bytes ++ data) := by
  obtain ⟨staged, verified, switching, pending⟩ := h.of_accepted hc.checked.state
  rw [hc.after]
  refine .accepted hc.checked.state ?_ verified switching pending
  have hroom := staged.room
  have hsize := staged.size_le
  have hle := staged.received_le
  have hfits := hc.fits
  refine ⟨staged.id, staged.owner, staged.owner_ne, staged.api, staged.api_ne, staged.expected,
    staged.size_gt, hsize, ?_, ?_, staged.digest, ?_, ?_⟩
  · exact congrArg (· + data.length) staged.received
  · change u.last.received + data.length ≤ u.last.size
    omega
  · -- the copy starts where the received bytes end
    change (copy_at u.stage.bytes u.stage.received data).take (u.last.received + data.length) = _
    rw [staged.received, copy_at_take _ _ (by omega), staged.held]
  · change (copy_at u.stage.bytes u.stage.received data).length = _
    rw [copy_at_length]
    · exact hroom
    · rw [staged.received, hroom]
      omega

/-- The stage of an open transaction, given up by its owner. -/
theorem Staged.abort (h : Staged u bytes) : u.stage.abort u.owner = (.ok, {}) := by
  simp [CapsuleStage.abort, h.owner, h.owner_ne, CapsuleStage.clear]

theorem Staged.active (h : Staged u bytes) : u.stage.active = true := by
  simp [CapsuleStage.active, h.owner, h.owner_ne]

/-- A failed transaction is closed. -/
theorem phase_fail {u : FmgoUpload} (bytes : List Byte) (error : UploadError)
    (hstage : u.stage = {} ∨ u.stage.active = true ∧ u.stage.abort u.owner = (.ok, {}))
    (hswitch : u.switching.owner = 0) : Phase (u.fail error) bytes := by
  refine phase_closed bytes rfl ?_ hswitch rfl
  unfold fail
  rcases hstage with h | ⟨hactive, habort⟩
  · simp [h, CapsuleStage.active]
  · simp [hactive, habort]

/-- A verified capsule is all of the chunks, and a good image. -/
theorem Phase.finished (h : Phase u bytes) (hf : Finished u owner id answer u') : Phase u' bytes := by
  obtain ⟨staged, verified, switching, pending⟩ := h.of_accepted hf.checked.state
  have hcomplete : u.last.received = u.last.size := by
    rw [← staged.received, hf.sealed.complete, staged.expected]
  have hcapsule : u.stage.capsule = bytes := by
    rw [CapsuleStage.capsule, staged.expected, ← hcomplete, staged.held]
  have hlen : bytes.length = u.last.size := by
    rw [← staged.held, List.length_take, staged.room, hcomplete]
    exact min_eq_left staged.size_le
  obtain ⟨info, hinfo, hsize⟩ := hf.sealed.image
  rw [hcapsule, staged.expected, staged.api, ← hlen] at hinfo
  rw [staged.expected, ← hlen] at hsize
  rw [hf.after]
  refine .verified rfl ?_ rfl ⟨hlen, ?_, info, hinfo, hsize⟩ switching pending
  · exact staged.of_eq rfl rfl rfl rfl rfl rfl rfl
  · rw [← hcapsule, hf.sealed.digest]
    exact staged.digest

theorem Phase.spoiled (h : Phase u bytes) (hf : Spoiled u owner id answer u') : Phase u' bytes := by
  obtain ⟨staged, verified, switching, pending⟩ := h.of_accepted hf.checked.state
  obtain ⟨stage, hstage, hafter⟩ := hf.after
  rw [hafter]
  refine phase_fail bytes answer.error ?_ switching
  rcases hstage with rfl | ⟨rfl, hne | hverified⟩
  · exact .inl rfl
  · exact absurd (staged.owner.trans hf.checked.owner_eq.symm) hne
  · rw [verified] at hverified
    cases hverified

theorem Phase.committed (h : Phase u bytes) (hs : u.last.state = .verified) :
    Phase { u with last := { u.last with state := .committing }, commit_pending := true } bytes := by
  obtain ⟨staged, verified, good, switching, pending⟩ := h.of_verified hs
  exact .queued rfl (staged.of_eq rfl rfl rfl rfl rfl rfl rfl) verified
    ⟨good.length, good.digest, good.image⟩ switching rfl

/-- A transaction that is given up leaves an empty stage. -/
theorem Phase.aborted (h : Phase u bytes) {error : UploadError}
    (ha : Aborted u owner u' error) : Phase u' bytes := by
  have hparts : Staged u bytes ∧ u.switching.owner = 0 ∧ u.commit_pending = false := by
    rcases ha.state with hs | hs
    · obtain ⟨staged, _, switching, pending⟩ := h.of_accepted hs
      exact ⟨staged, switching, pending⟩
    · obtain ⟨staged, _, _, switching, pending⟩ := h.of_verified hs
      exact ⟨staged, switching, pending⟩
  obtain ⟨staged, switching, pending⟩ := hparts
  rw [ha.after, ha.owner_eq, staged.abort]
  exact phase_closed bytes rfl rfl switching pending

/-! ## The hardware, and the poll -/

section Install

variable {stage : CapsuleStage} {capsule : List Byte} {api_address : ℕ} (board : Board)
  (hstage : stage.verified_capsule owner = some capsule) (hgt : kCodeOffset < capsule.length)
  (hle : capsule.length ≤ kProofSectorBytes)
  (himage : ∃ info, validate_image (some capsule) capsule.length api_address = .ok info ∧
    capsule.length = kCodeOffset + info.code_bytes)
include hstage hgt hle himage

/-- The installer, for a good capsule in the stage. -/
theorem install_verified_cases :
    install_verified_capsule stage owner api_address board
      = (⟨.flash_begin_failed, false⟩, [.flash_begin false]) ∨
    ∃ whole writes rereads, Writes capsule whole writes ∧
      (install_verified_capsule stage owner api_address board).2
        = .flash_begin true :: writes ++ [.flash_end] ++ rereads ∧
      ((install_verified_capsule stage owner api_address board).1.result ≠ .ok ∧
          Rereads capsule whole rereads ∨
        (install_verified_capsule stage owner api_address board).1.result = .ok ∧ whole = true ∧
          ∃ written, written.take capsule.length = capsule ∧
            rereads = [.slot_data (some written)]) := by
  obtain ⟨info, hinfo, hsize⟩ := himage
  -- the capsule was checked before, so only the flash can fail
  have hchecks : ¬ ((decide (capsule.length > kProofSectorBytes) || decide (capsule.length ≤ kCodeOffset)
      || !decide (capsule.length = kCodeOffset + info.code_bytes)) = true) := by
    simp only [Bool.or_eq_true, decide_eq_true_eq, Bool.not_eq_true', decide_eq_false_iff_not, not_or,
      not_not]
    omega
  have hwrites := write_slot_writes (ι := ImageInfo) board capsule
  unfold install_verified_capsule
  simp only [hstage, hinfo]
  rw [if_neg hchecks]
  cases hbegin : board.flash_begin with
  | false => exact .inl rfl
  | true =>
    refine .inr ?_
    simp only [Bool.not_true, Bool.false_eq_true, if_false]
    generalize write_slot (ι := ImageInfo) board capsule = slot at hwrites ⊢
    obtain ⟨result, accesses⟩ := slot
    by_cases hok : result = .ok
    · subst hok
      simp only [ne_eq, not_true_eq_false, if_false]
      split
      · next hread =>
        cases hinstalled : board.installed with
        | none => rw [hinstalled] at hread; cases hread
        | some written =>
          rw [hinstalled] at hread
          simp only [read_back, Bool.and_eq_true, decide_eq_true_eq] at hread
          exact ⟨true, accesses, [.slot_data (some written)], hwrites, rfl,
            .inr ⟨rfl, rfl, written, hread.1, rfl⟩⟩
      · exact ⟨true, accesses, [.slot_data board.installed], hwrites, rfl,
          .inl ⟨by simp, .unlike _⟩⟩
    · simp only [ne_eq, hok, not_false_iff, if_true]
      refine ⟨false, accesses, [], ?_, by simp, .inl ⟨trivial, .failed⟩⟩
      simpa [hok] using hwrites

/-- The switch, for a good capsule in the stage. -/
theorem install_cases {s : SketchSwitch} (howner : s.owner = owner) (hapi : s.api_address = api_address) :
    ((s.install stage board).2 = [.stop, .flash_begin false] ∧
      (s.install stage board).1.status = .install_failed) ∨
    ∃ whole writes rereads, Writes capsule whole writes ∧ Rereads capsule whole rereads ∧
      (s.install stage board).2 = [.stop, .flash_begin true] ++ writes ++ [.flash_end] ++ rereads ∧
      ((s.install stage board).1.status = .install_failed ∨
        (s.install stage board).1.status = .complete ∧ ∃ info, .start info ∈ rereads) := by
  subst howner hapi
  have hinstall := install_verified_cases board hstage hgt hle himage
  unfold SketchSwitch.install
  generalize install_verified_capsule stage s.owner s.api_address board = installed at hinstall ⊢
  obtain ⟨report, accesses⟩ := installed
  rcases hinstall with heq | ⟨whole, writes, rereads, hwrites, rfl, hcases⟩
  · cases heq
    exact .inl ⟨rfl, rfl⟩
  refine .inr ?_
  rcases hcases with ⟨hbad, hrereads⟩ | ⟨hok, rfl, written, hsame, rfl⟩
  · simp only [hbad, if_false]
    exact ⟨whole, writes, rereads, hwrites, hrereads, by simp, .inl trivial⟩
  · simp only at hok
    simp only [hok, if_true]
    split
    · next info _ =>
      exact ⟨true, writes, _, hwrites, .started written board.slot info hsame, by simp,
        .inr ⟨rfl, info, by simp⟩⟩
    · exact ⟨true, writes, _, hwrites, .unstarted written board.slot hsame, by simp, .inl rfl⟩

end Install

/-- The installer is handed the bytes that were received. -/
theorem Staged.verified_capsule (h : Staged u bytes) (hv : u.stage.verified = true)
    (hg : Good u.api u.last bytes) : u.stage.verified_capsule u.owner = some bytes := by
  have hlen : bytes.length = u.last.received := by
    rw [← h.held, List.length_take, h.room]
    exact min_eq_left (h.received_le.trans h.size_le)
  have hcapsule : u.stage.capsule = bytes := by
    rw [CapsuleStage.capsule, h.expected, ← hg.length, hlen, h.held]
  simp [CapsuleStage.verified_capsule, hv, h.owner, hcapsule]

/-- What a poll does to the service, and the accesses it makes. -/
structure Polled (u : FmgoUpload) (board : Board) (returned : Bool) (bytes : List Byte)
    (u' : FmgoUpload) (accesses : List (Hardware ImageInfo)) : Prop where
  phase : Phase u' bytes
  id : u'.last.id = u.last.id
  size : u'.last.size = u.last.size
  digest : u'.last.digest = u.last.digest
  owner : u'.owner = u.owner
  next_id : u'.next_id = u.next_id
  api : u'.api = u.api
  made : Accesses u.armed board.parked bytes accesses
  /-- The record moves on only from a commit, or to the confirmation of an installation. -/
  state : u'.last.state = u.last.state ∨
    u.last.state = .installed ∧ returned = true ∧ u'.last.state = .boot_confirmed ∨
    u.last.state = .committing ∧ (u'.last.state = .failed ∨
      u'.last.state = .installed ∧ ∃ info, Hardware.start info ∈ accesses)
  /-- Flash work is the end of the transaction. -/
  flashed : (∃ x ∈ accesses, is_flash x = true) →
    u.last.state = .committing ∧ is_open u'.last.state = false

/-- What a poll never changes. -/
structure Same (u v : FmgoUpload) : Prop where
  id : v.last.id = u.last.id
  size : v.last.size = u.last.size
  digest : v.last.digest = u.last.digest
  owner : v.owner = u.owner
  next_id : v.next_id = u.next_id
  api : v.api = u.api

/-- A poll that ends the transaction in failure. -/
theorem polled_fail {u v : FmgoUpload} {board : Board} {returned : Bool}
    {accesses : List (Hardware ImageInfo)} (error : UploadError) (hstate : u.last.state = .committing)
    (hmade : Accesses u.armed board.parked bytes accesses) (hsame : Same u v)
    (hstage : v.stage = {} ∨ v.stage.active = true ∧ v.stage.abort v.owner = (.ok, {}))
    (hswitch : v.switching.owner = 0) : Polled u board returned bytes (v.fail error) accesses :=
  ⟨phase_fail bytes error hstage hswitch, hsame.id, hsame.size, hsame.digest, hsame.owner,
    hsame.next_id, hsame.api, hmade, .inr (.inr ⟨hstate, .inl rfl⟩), fun _ => ⟨hstate, rfl⟩⟩

/-- The switch is driven, after the pause was asked for in this poll or before. -/
theorem drive_polled {u v : FmgoUpload} (board : Board) (returned : Bool) (now : UInt32)
    {ask : List (Hardware ImageInfo)} (hask : ask = [] ∨ ask = [.pause_request true])
    (hstate : u.last.state = .committing) (hsame : Same u v) (hvstate : v.last.state = .committing)
    (harm : v.armed = u.armed) (hpending : v.commit_pending = false)
    (hswitch : v.switching.owner = v.owner) (hswitch_api : v.switching.api_address = v.api)
    (staged : Staged v bytes) (hverified : v.stage.verified = true) (good : Good v.api v.last bytes) :
    Polled u board returned bytes (v.drive now board).1 (ask ++ (v.drive now board).2) := by
  have howner_ne : v.switching.owner ≠ 0 := by rw [hswitch]; exact staged.owner_ne
  have habort : v.stage.abort v.switching.owner = (.ok, {}) := by
    rw [hswitch]
    exact staged.abort
  unfold drive SketchSwitch.poll
  simp only [howner_ne, if_false, habort, harm]
  cases harmed : u.armed with
  | false =>
    simp only [Bool.not_false, if_true]
    refine polled_fail _ hstate (.pausing _ (pause_after hask (by simp [is_pause]))) ?_ (.inl rfl) rfl
    exact ⟨hsame.id, hsame.size, hsame.digest, hsame.owner, hsame.next_id, hsame.api⟩
  | true =>
    simp only [Bool.not_true, Bool.false_eq_true, if_false]
    cases hparked : board.parked with
    | false =>
      simp only [Bool.not_false, if_true]
      split
      · -- still waiting for core 1
        refine ⟨?_, hsame.id, hsame.size, hsame.digest, hsame.owner, hsame.next_id, hsame.api,
          .pausing _ (pause_after hask (by simp [is_pause])), .inl (hvstate.trans hstate.symm), ?_⟩
        · exact .switching hvstate (staged.of_eq rfl rfl rfl rfl rfl rfl rfl) hverified
            ⟨good.length, good.digest, good.image⟩ hswitch hswitch_api hpending
        · exact fun h => absurd h (not_flash_of_pause (pause_after hask (by simp [is_pause])))
      · refine polled_fail _ hstate (.pausing _ (pause_after hask (by simp [is_pause]))) ?_ (.inl rfl) rfl
        exact ⟨hsame.id, hsame.size, hsame.digest, hsame.owner, hsame.next_id, hsame.api⟩
    | true =>
      simp only [Bool.not_true, Bool.false_eq_true, if_false]
      have hcapsule : v.stage.verified_capsule v.switching.owner = some bytes := by
        rw [hswitch]
        exact staged.verified_capsule hverified good
      have hgt : kCodeOffset < bytes.length := by rw [good.length]; exact staged.size_gt
      have hle : bytes.length ≤ kProofSectorBytes := by rw [good.length]; exact staged.size_le
      have hinstall := install_cases board hcapsule hgt hle
        (by rw [hswitch_api]; exact good.image) rfl rfl
      generalize v.switching.install v.stage board = installed at hinstall ⊢
      obtain ⟨report, accesses⟩ := installed
      rcases hinstall with ⟨rfl, hfailed⟩ | ⟨whole, writes, rereads, hwrites, hrereads, rfl, hend⟩
      · have hmade : Accesses u.armed board.parked bytes
            (ask ++ [.pause_parked true, .stop, .flash_begin false, .pause_release]) :=
          .refused ask hask harmed hparked
        simp only at hfailed
        simp only [hfailed, settle]
        refine polled_fail _ hstate hmade ?_ (.inl rfl) rfl
        exact ⟨hsame.id, hsame.size, hsame.digest, hsame.owner, hsame.next_id, hsame.api⟩
      · have hmade : Accesses u.armed board.parked bytes
            (ask ++ [.pause_parked true, .stop, .flash_begin true] ++ writes ++ [.flash_end]
              ++ rereads ++ [.pause_release]) :=
          .installing ask hask harmed hparked whole writes rereads hwrites hrereads
        have hlist : ask ++ (.pause_parked true :: ([.stop, .flash_begin true] ++ writes
            ++ [.flash_end] ++ rereads) ++ [.pause_release])
            = ask ++ [.pause_parked true, .stop, .flash_begin true] ++ writes ++ [.flash_end]
              ++ rereads ++ [.pause_release] := by simp
        rw [hlist]
        rcases hend with hfailed | ⟨hcomplete, info, hinfo⟩
        · simp only at hfailed
          simp only [hfailed, settle]
          refine polled_fail _ hstate hmade ?_ (.inl rfl) rfl
          exact ⟨hsame.id, hsame.size, hsame.digest, hsame.owner, hsame.next_id, hsame.api⟩
        · simp only at hcomplete
          simp only [hcomplete, settle]
          refine ⟨phase_closed bytes rfl rfl rfl hpending, hsame.id, hsame.size, hsame.digest,
            hsame.owner, hsame.next_id, hsame.api, hmade, ?_, fun _ => ⟨hstate, rfl⟩⟩
          exact .inr (.inr ⟨hstate, .inr ⟨rfl, info, by simp [hinfo]⟩⟩)

/-- **A poll keeps the joint invariant**, and what it asks of the hardware is nothing, the
pause, or one installation of the verified capsule. -/
theorem Phase.polled (h : Phase u bytes) (now : UInt32) (board : Board) (returned : Bool) :
    Polled u board returned bytes (u.poll now board returned).1 (u.poll now board returned).2 := by
  have hquiet : Polled u board returned bytes u [] :=
    ⟨h, rfl, rfl, rfl, rfl, rfl, rfl, .pausing _ (by simp), .inl rfl, by simp⟩
  unfold poll
  split
  · exact hquiet
  split
  · next hconfirm =>
    simp only [Bool.and_eq_true, decide_eq_true_eq] at hconfirm
    obtain ⟨hstage, hroom, hswitch, hpending⟩ := h.of_closed (by rw [hconfirm.1]; rfl)
    refine ⟨.idle rfl hstage hroom hswitch hpending, rfl, rfl, rfl, rfl, rfl, rfl,
      .pausing _ (by simp), .inr (.inl ⟨hconfirm.1, hconfirm.2, rfl⟩), by simp⟩
  split
  · exact hquiet
  next hstate =>
  rw [not_not] at hstate
  obtain ⟨staged, hverified, good, hphase⟩ := h.of_committing hstate
  split
  -- the commit has not reached the switch yet; this poll begins it
  · next hpending =>
    have hswitch : u.switching.owner = 0 := by
      rcases hphase with ⟨hswitch, _⟩ | ⟨_, _, hno⟩
      · exact hswitch
      · rw [hno] at hpending
        cases hpending
    simp only
    cases harmed : u.armed with
    | false =>
      simp only [Bool.not_false, if_true]
      exact polled_fail _ hstate (.pausing _ (by simp)) ⟨rfl, rfl, rfl, rfl, rfl, rfl⟩
        (.inr ⟨staged.active, staged.abort⟩) hswitch
    | true =>
      simp only [Bool.not_true, Bool.false_eq_true, if_false]
      have hcapsule := staged.verified_capsule hverified good
      have hne : bytes ≠ [] := by
        intro hnil
        have hgt := staged.size_gt
        rw [← good.length, hnil] at hgt
        cases hgt
      have hbegin : u.switching.begin u.stage board u.owner u.api now
          = if board.request then (true, ⟨u.owner, u.api, now⟩, [.pause_request true])
            else (false, u.switching, [.pause_request false]) := by
        simp only [SketchSwitch.begin, hswitch, staged.owner_ne, staged.api_ne, hcapsule, hne]
        cases board.request <;> rfl
      rw [hbegin]
      cases board.request with
      | false =>
        exact polled_fail _ hstate (.pausing _ (by simp [is_pause]))
          ⟨rfl, rfl, rfl, rfl, rfl, rfl⟩ (.inr ⟨staged.active, staged.abort⟩) hswitch
      | true =>
        exact drive_polled board returned now (.inr rfl) hstate ⟨rfl, rfl, rfl, rfl, rfl, rfl⟩
          hstate harmed.symm rfl rfl rfl (staged.of_eq rfl rfl rfl rfl rfl rfl rfl) hverified good
  -- the switch is under way, and the poll drives it on
  · next hpending =>
    rcases hphase with ⟨_, hyes⟩ | ⟨hswitch, hapi, hno⟩
    · exact absurd hyes hpending
    · exact drive_polled board returned now (.inl rfl) hstate ⟨rfl, rfl, rfl, rfl, rfl, rfl⟩ hstate
        rfl hno hswitch hapi staged hverified good

end FmgoUpload

end Firmingo.Managed
