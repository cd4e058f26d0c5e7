/-
The two upload services side by side.

The FMS1 and the FMS2 service implement one interface, each with its own stage and its own
order of checks. Two things are said about both here. A call that is refused changes nothing,
and the IDs a boot gives out only grow; for the FMS1 service that needs its stage to be in
step with its record. And the chunk calls of the two are compared: they differ where a chunk
is out of order and also longer than what is missing, which the FMS2 service tests first.
-/
import Firmingo.Effects
import Firmingo.FlashSafety
import Firmingo.StatefulSafety

set_option autoImplicit false

open Octets

namespace Firmingo.Managed

/-! ## Refused calls -/

/-- The one refusal that ends the transaction: `finish` found the wrong bytes. -/
def spoils : UploadCall → UploadError → Bool
  | .finish _, .digest_mismatch | .finish _, .invalid_image => true
  | _, _ => false

/-- A refused call leaves the service as it was and writes no status. -/
def Atomic {υ : Type} [UploadService υ] (u : υ) : Prop :=
  (∀ (call : UploadCall) (t : UInt32), (call.run u t).1.error ≠ .none →
    spoils call (call.run u t).1.error = false → (call.run u t).2 = u ∧ (call.run u t).1.status = {}) ∧
  ∀ id, (UploadService.status u id).error ≠ .none → (UploadService.status u id).status = {}

namespace FmgoUpload

variable (u : FmgoUpload) (owner : UInt32) (id : ℕ)

theorem begin_refused (size : ℕ) (digest : List Byte) (h : (u.begin owner size digest).1.error ≠ .none) :
    (u.begin owner size digest).2 = u ∧ (u.begin owner size digest).1.status = {} := by
  rcases begin_cases u owner size digest with ⟨_, hsame⟩ | hb
  · refine ⟨hsame, ?_⟩
    revert h
    unfold begin
    repeat' split
    all_goals simp
  · exact absurd (congrArg UploadAnswer.error hb.answer_eq) h

theorem chunk_refused (offset : ℕ) (data : List Byte)
    (h : (u.chunk owner id offset data).1.error ≠ .none) :
    (u.chunk owner id offset data).2 = u ∧ (u.chunk owner id offset data).1.status = {} := by
  rcases chunk_cases u owner id offset data with ⟨_, hsame⟩ | hc
  · refine ⟨hsame, ?_⟩
    revert h
    unfold chunk
    repeat' split
    all_goals simp
  · exact absurd (congrArg UploadAnswer.error hc.answer_eq) h

theorem finish_refused (h : (u.finish owner id).1.error ≠ .none)
    (hspoils : spoils (.finish id) (u.finish owner id).1.error = false) :
    (u.finish owner id).2 = u ∧ (u.finish owner id).1.status = {} := by
  revert h hspoils
  unfold finish
  split
  · exact fun _ _ => ⟨rfl, rfl⟩
  rcases finish_stage_cases u.stage owner with hstage | ⟨hstage | hstage, _⟩ |
    (hstage | hstage) | ⟨_, hstage⟩
  · rw [hstage]
    exact fun _ _ => ⟨rfl, rfl⟩
  all_goals
    rw [hstage]
    simp [spoils]

theorem commit_refused (h : (u.commit owner id).1.error ≠ .none) :
    (u.commit owner id).2 = u ∧ (u.commit owner id).1.status = {} := by
  revert h
  unfold commit
  split
  · exact fun _ => ⟨rfl, rfl⟩
  split
  · exact fun _ => ⟨rfl, rfl⟩
  · exact fun h => absurd rfl h

theorem abort_refused (h : (u.abort owner id).1.error ≠ .none) :
    (u.abort owner id).2 = u ∧ (u.abort owner id).1.status = {} := by
  rcases abort_cases u owner id with ⟨_, hsame⟩ | ⟨hnone, _⟩
  · refine ⟨hsame, ?_⟩
    revert h
    unfold abort
    repeat' split
    all_goals simp
  · exact absurd hnone h

/-- **A refused call of the FMS1 service changes nothing.** -/
theorem atomic : Atomic u := by
  refine ⟨?_, ?_⟩
  · intro call t h hspoils
    cases call with
    | begin size digest => exact begin_refused u t size digest h
    | chunk id offset data => exact chunk_refused u t id offset data h
    | finish id => exact finish_refused u t id h hspoils
    | commit id => exact commit_refused u t id h
    | abort id => exact abort_refused u t id h
  · intro id
    change (u.status id).error ≠ .none → (u.status id).status = {}
    unfold status
    split
    · exact fun _ => rfl
    · exact fun h => absurd rfl h

end FmgoUpload

namespace Stateful.Upload

variable (u : Upload) (owner : UInt32) (id : ℕ)

theorem finish_refused (h : (u.finish owner id).1.error ≠ .none)
    (hspoils : spoils (.finish id) (u.finish owner id).1.error = false) :
    (u.finish owner id).2 = u ∧ (u.finish owner id).1.status = {} := by
  revert h hspoils
  unfold finish
  simp only
  split
  · exact fun _ _ => ⟨rfl, rfl⟩
  split
  · exact fun _ _ => ⟨rfl, rfl⟩
  split
  · exact fun _ hspoils => by cases hspoils
  split
  · exact fun _ hspoils => by cases hspoils
  · exact fun h => absurd rfl h

/-- **A refused call of the FMS2 service changes nothing.** -/
theorem atomic : Atomic u := by
  refine ⟨?_, ?_⟩
  · intro call t
    cases call with
    | begin size digest =>
      change (u.begin t size digest).1.error ≠ .none → _ →
        (u.begin t size digest).2 = u ∧ (u.begin t size digest).1.status = {}
      unfold begin
      repeat' split
      all_goals simp
    | chunk id offset data =>
      change (u.chunk t id offset data).1.error ≠ .none → _ →
        (u.chunk t id offset data).2 = u ∧ (u.chunk t id offset data).1.status = {}
      unfold chunk
      repeat' split
      all_goals simp
    | finish id => exact finish_refused u t id
    | commit id =>
      change (u.commit t id).1.error ≠ .none → _ →
        (u.commit t id).2 = u ∧ (u.commit t id).1.status = {}
      unfold commit
      repeat' split
      all_goals simp
    | abort id =>
      change (u.abort t id).1.error ≠ .none → _ → (u.abort t id).2 = u ∧ (u.abort t id).1.status = {}
      unfold abort
      repeat' split
      all_goals simp
  · intro id
    change (u.status id).error ≠ .none → (u.status id).status = {}
    unfold status
    split
    · exact fun _ => rfl
    · exact fun h => absurd rfl h

end Stateful.Upload

/-! ## The stage and the record of the FMS1 service -/

/-- The stage is active exactly while a transaction is open, and then it is about the same
upload as the record. -/
structure FmgoUpload.InStep (u : FmgoUpload) : Prop where
  active : u.stage.active = u.blocks_console
  owner : u.stage.active = true → u.stage.owner = u.owner
  size : u.stage.active = true → u.stage.expected_bytes = u.last.size
  received : u.stage.active = true → u.stage.received = u.last.received
  chunk : ∀ owner id offset data, (u.chunk owner id offset data).1.error ≠ .io_error
  abort : ∀ owner id, (u.abort owner id).1.error ≠ .io_error

namespace FmgoUpload

variable {u : FmgoUpload} {bytes : List Byte}

/-- An open transaction has its bytes in the stage. -/
theorem Phase.staged_of_open (h : Phase u bytes) (hopen : is_open u.last.state = true) : Staged u bytes := by
  cases h with
  | idle closed => rw [closed] at hopen; cases hopen
  | accepted state staged => exact staged
  | _ state staged => exact staged

/-- What a chunk call answers, once the stage can be relied on. -/
theorem chunk_error (h : Phase u bytes) (owner : UInt32) (id offset : ℕ) (data : List Byte) :
    (u.chunk owner id offset data).1.error =
      if u.check owner id .accepted ≠ .none then u.check owner id .accepted
      else if data = [] || data.length > target.max_chunk then .invalid_argument
      else if offset ≠ u.last.received then .wrong_offset
      else if data.length > u.last.size - u.last.received then .invalid_argument
      else .none := by
  unfold chunk
  split
  · rfl
  next hcheck =>
  split
  · rfl
  next hdata =>
  split
  · rfl
  next hoffset =>
  split
  · rfl
  next hfits =>
  rw [not_not] at hcheck hoffset
  have hchecked := check_eq_none hcheck
  obtain ⟨staged, hverified, _⟩ := h.of_accepted hchecked.state
  simp only [Bool.or_eq_true, decide_eq_true_eq, not_or] at hdata
  have happend : u.stage.append owner offset data = (.ok, { u.stage with
      bytes := copy_at u.stage.bytes u.stage.received data
      received := u.stage.received + data.length }) := by
    simp only [CapsuleStage.append, staged.owner, hchecked.owner_eq, staged.owner_ne, hverified, hdata.1,
      staged.received, hoffset, staged.expected, hfits, decide_false, Bool.or_false, ne_eq,
      not_true_eq_false, if_false, Bool.false_eq_true]
  simp only [happend]

theorem Phase.staged_eq (h : Phase u bytes) (hs : u.last.state = .accepted) :
    u.stage.bytes.take u.stage.received = bytes := by
  obtain ⟨staged, _⟩ := h.of_accepted hs
  rw [staged.received, staged.held]

/-- **The stage keeps in step with the record**, so neither call of it can fail once the
record was checked. -/
theorem Phase.in_step (h : Phase u bytes) : u.InStep := by
  have hclosed : is_open u.last.state = false → u.stage.active = false := by
    intro hc
    simp [CapsuleStage.active, (h.of_closed hc).1]
  have hopen : u.stage.active = true → is_open u.last.state = true := by
    intro hactive
    by_contra hc
    rw [hclosed (by simpa using hc)] at hactive
    cases hactive
  refine ⟨?_, ?_, ?_, ?_, ?_, ?_⟩
  · rw [h.blocks_eq, Bool.eq_iff_iff]
    exact ⟨hopen, fun ho => (h.staged_of_open ho).active⟩
  · exact fun ha => (h.staged_of_open (hopen ha)).owner
  · exact fun ha => (h.staged_of_open (hopen ha)).expected
  · exact fun ha => (h.staged_of_open (hopen ha)).received
  · intro owner id offset data
    rw [chunk_error h, check, check_record]
    repeat' split
    all_goals simp
  · intro owner id
    unfold abort
    split
    · simp
    split
    · simp
    next howner =>
    split
    · simp
    next hstate =>
    simp only [ne_eq, Bool.or_eq_true, Bool.and_eq_true, decide_eq_true_eq, not_or, not_and_or,
      not_not] at howner hstate
    have hisopen : is_open u.last.state = true := by
      rcases hstate with hs | hs <;> rw [hs] <;> rfl
    rw [howner.2, (h.staged_of_open hisopen).abort]
    simp

end FmgoUpload

/-! ## The IDs of a boot -/

section Numbers

variable {ι : Type}

/-- The ID an entry of the log gave out. -/
def Entry.begun (e : Entry ι) : Option ℕ :=
  match e.op with
  | .begin _ _ _ _ => if e.error = .none then some e.record.id else none
  | _ => none

/-- The IDs that were given out, in order. -/
def begun_ids (log : List (Entry ι)) : List ℕ := log.filterMap Entry.begun

/-- They grow, and none is zero. -/
structure Numbered (log : List (Entry ι)) : Prop where
  increasing : (begun_ids log).Pairwise (· < ·)
  ne_zero : ∀ id ∈ begun_ids log, id ≠ 0

theorem Numbered.nil : Numbered ([] : List (Entry ι)) := ⟨List.Pairwise.nil, by simp [begun_ids]⟩

variable {image : List Byte → Prop} {a : Account} {log : List (Entry ι)} {e : Entry ι}

theorem mem_begun_ids {id : ℕ} (h : id ∈ begun_ids log) : ∃ x ∈ log, x.record.id = id := by
  obtain ⟨x, hx, hbegun⟩ := List.mem_filterMap.mp h
  refine ⟨x, hx, ?_⟩
  unfold Entry.begun at hbegun
  split at hbegun
  · split at hbegun
    · exact Option.some.inj hbegun
    · cases hbegun
  · cases hbegun

/-- What was given out is below what will be given out next. -/
theorem Numbered.concat (h : Numbered log) (hr : a.Recorded image log)
    (hnew : ∀ id, e.begun = some id → a.next_id ≠ 0 ∧ id = a.next_id) : Numbered (log ++ [e]) := by
  have hids : begun_ids (log ++ [e]) = begun_ids log ++ e.begun.toList := by
    cases hb : e.begun with
    | none => simp [begun_ids, hb]
    | some id => simp [begun_ids, hb]
  cases hb : e.begun with
  | none =>
    rw [hb, Option.toList_none, List.append_nil] at hids
    exact ⟨by rw [hids]; exact h.increasing, by rw [hids]; exact h.ne_zero⟩
  | some id =>
    obtain ⟨hne, rfl⟩ := hnew id hb
    rw [hb, Option.toList_some] at hids
    refine ⟨?_, ?_⟩
    · rw [hids, List.pairwise_append]
      refine ⟨h.increasing, List.pairwise_singleton _ _, ?_⟩
      intro old hold new hmem
      obtain ⟨x, hx, rfl⟩ := mem_begun_ids hold
      rw [List.mem_singleton.mp hmem]
      have hlt := hr.ids x hx
      rw [Account.fresh, if_neg hne] at hlt
      exact hlt
    · intro id hid
      rw [hids] at hid
      rcases List.mem_append.mp hid with hid | hid
      · exact h.ne_zero id hid
      · rw [List.mem_singleton.mp hid]
        exact hne

/-- Once the last ID of the range is given out there is no next one. -/
theorem next_of_exhausted (hr : a.Recorded image log) (h : 2 ^ 32 - 1 ∈ begun_ids log) : a.next_id = 0 := by
  obtain ⟨x, hx, hid⟩ := mem_begun_ids h
  have hlt := hr.ids x hx
  have hle := hr.next_le
  by_contra hne
  rw [Account.fresh, if_neg hne] at hlt
  omega

end Numbers

/-- What a service promises the sessions, in a state with its log. -/
structure Promises {υ ι : Type} [UploadService υ] (u : υ) (log : List (Entry ι)) : Prop where
  atomic : Atomic u
  numbered : Numbered log
  exhausted : 2 ^ 32 - 1 ∈ begun_ids log → ∀ t size digest,
    (UploadService.begin u t size digest).1.error ≠ .none

/-- IDs in a whole run grow from one, so none is given twice. -/
theorem ServiceRun.numbered_after (api : ℕ) (ops : List ServiceOp) :
    Numbered (ServiceRun.after api ops).log := by
  refine (Runs.run_invariant (P := fun r => FmgoUpload.Logged api r.service r.log ∧ Numbered r.log)
    ServiceRun.step ⟨ServiceRun.logged_after api [], .nil⟩ ?_ ops).2
  rintro r op ⟨hlogged, hnumbered⟩
  refine ⟨hlogged.step op, hnumbered.concat hlogged.recorded ?_⟩
  intro id hid
  cases op with
  | begin owner size digest armed =>
    simp only [Entry.begun] at hid
    split at hid
    · next herror =>
      cases Option.some.inj hid
      rcases FmgoUpload.begin_cases { r.service with armed := armed } owner size digest with
        ⟨hbad, _⟩ | hb
      · exact absurd herror hbad
      · refine ⟨hb.next_ne, ?_⟩
        simp only [hb.after]
        rfl
    · cases hid
  | _ => cases hid

/-- The same for the stateful service. -/
theorem Stateful.Run.numbered_after (contract resident : Stateful.Contract) (arena : Stateful.Arena)
    (ops : List Stateful.Op) : Numbered (Stateful.Run.after contract resident arena ops).log := by
  refine (Runs.run_invariant
    (P := fun r => Stateful.Logged contract resident r ∧ Numbered r.log)
    Stateful.Run.step ⟨Stateful.Run.logged_after contract resident arena [], .nil⟩ ?_ ops).2
  rintro r op ⟨hlogged, hnumbered⟩
  refine ⟨(hlogged.step op).1, ?_⟩
  cases op with
  | boot slot mapped_bytes overlaps => exact hnumbered
  | core1 => exact hnumbered
  | call op =>
    refine hnumbered.concat hlogged.recorded ?_
    intro id hid
    cases op with
    | begin owner size digest armed =>
      simp only [Entry.begun] at hid
      split at hid
      · next herror =>
        cases Option.some.inj hid
        rcases Stateful.Upload.begin_cases { r.service with armed := armed } owner size digest with
          ⟨hbad, _⟩ | hb
        · exact absurd herror hbad
        · refine ⟨hb.next_ne, ?_⟩
          simp only [hb.after]
          rfl
      · cases hid
    | _ => cases hid

/-- **Upload calls are atomic and IDs are never reused.** In every state that a run of either
service reaches, with the arm input at either level: a refused call, other than a `finish`
that finds the wrong bytes, leaves the whole service as it was and writes no status; the IDs
given out since boot are nonzero and strictly increasing, and after the last one of the range
every begin is refused. The stage of the FMS1 service is active exactly while it blocks the
console, with the owner, size and count of the record, and no chunk or abort fails in it. -/
theorem upload_calls_atomic (armed : Bool) (api : ℕ) (ops : List ServiceOp)
    (contract resident : Stateful.Contract) (arena : Stateful.Arena) (stateful_ops : List Stateful.Op) :
    (Promises { (ServiceRun.after api ops).service with armed := armed } (ServiceRun.after api ops).log ∧
      FmgoUpload.InStep { (ServiceRun.after api ops).service with armed := armed }) ∧
    Promises { (Stateful.Run.after contract resident arena stateful_ops).service with armed := armed }
      (Stateful.Run.after contract resident arena stateful_ops).log := by
  have hfmgo := ServiceRun.logged_after api ops
  have hstateful := Stateful.Run.logged_after contract resident arena stateful_ops
  refine ⟨⟨⟨FmgoUpload.atomic _, ServiceRun.numbered_after api ops, ?_⟩, (hfmgo.phase.arm armed).in_step⟩,
    Stateful.Upload.atomic _, Stateful.Run.numbered_after contract resident arena stateful_ops, ?_⟩
  · intro hlast t size digest hok
    rcases FmgoUpload.begin_cases { (ServiceRun.after api ops).service with armed := armed } t size digest
      with ⟨hbad, _⟩ | hb
    · exact hbad hok
    · exact hb.next_ne (next_of_exhausted hfmgo.recorded hlast)
  · intro hlast t size digest hok
    rcases Stateful.Upload.begin_cases
      { (Stateful.Run.after contract resident arena stateful_ops).service with armed := armed } t size digest
      with ⟨hbad, _⟩ | hb
    · exact hbad hok
    · exact hb.next_ne (next_of_exhausted hstateful.recorded hlast)

/-! ## Chunks -/

/-- The bytes staged for the upload of the record. -/
def FmgoUpload.staged (u : FmgoUpload) : List Byte := u.stage.bytes.take u.stage.received

def Stateful.Upload.staged (u : Stateful.Upload) : List Byte := u.stage.take u.last.received

/-- The services hold an accepted upload with the same ID, owner, size and progress. -/
structure SameUpload (u : FmgoUpload) (v : Stateful.Upload) : Prop where
  accepted : u.last.state = .accepted
  accepted' : v.last.state = .accepted
  id : v.last.id = u.last.id
  owner : v.owner = u.owner
  size : v.last.size = u.last.size
  received : v.last.received = u.last.received

/-- The services answer a chunk in the same way: the same error, and then the same state, count
and bytes; from the owner, one at another offset is answered `wrong_offset`. -/
structure ChunkAlike (u : FmgoUpload) (v : Stateful.Upload) (owner : UInt32) (id offset : ℕ)
    (data : List Byte) : Prop where
  error : (v.chunk owner id offset data).1.error = (u.chunk owner id offset data).1.error
  state : (v.chunk owner id offset data).2.last.state = (u.chunk owner id offset data).2.last.state
  received : (v.chunk owner id offset data).2.last.received = (u.chunk owner id offset data).2.last.received
  staged : ∃ more, (u.chunk owner id offset data).2.staged = u.staged ++ more ∧
    (v.chunk owner id offset data).2.staged = v.staged ++ more
  resent : owner = u.owner → id = u.last.id → data ≠ [] → data.length ≤ 1024 →
    offset ≠ u.last.received → (u.chunk owner id offset data).1.error = .wrong_offset ∧
      (v.chunk owner id offset data).1.error = .wrong_offset

/-- A chunk of the owner that is out of order and also longer than what is missing. -/
structure Overreaches (u : FmgoUpload) (owner : UInt32) (id offset : ℕ) (data : List Byte) : Prop where
  owner_eq : owner = u.owner
  id_eq : id = u.last.id
  some_data : data ≠ []
  size : data.length ≤ 1024
  offset_ne : offset ≠ u.last.received
  too_long : u.last.size - u.last.received < data.length

theorem Stateful.Upload.chunk_error (v : Stateful.Upload) (owner : UInt32) (id offset : ℕ)
    (data : List Byte) : (v.chunk owner id offset data).1.error =
      if v.check owner id .accepted ≠ .none then v.check owner id .accepted
      else if data = [] || data.length > 1024 || data.length > v.last.size - v.last.received then
        .invalid_argument
      else if offset ≠ v.last.received then .wrong_offset
      else .none := by
  unfold chunk
  repeat' split
  all_goals first | rfl | contradiction

theorem Stateful.Upload.Phase.staged_eq {v : Stateful.Upload} {bytes : List Byte} (h : v.Phase bytes)
    (hs : v.last.state = .accepted) : v.stage.take v.last.received = bytes :=
  (h.of_accepted hs).1.held

section Compare

variable {u : FmgoUpload} {v : Stateful.Upload} {bytes bytes' : List Byte} (hu : u.Phase bytes)
  (hv : v.Phase bytes') (h : SameUpload u v) (owner : UInt32) (id offset : ℕ) (data : List Byte)
include h

theorem SameUpload.check : v.check owner id .accepted = u.check owner id .accepted := by
  simp only [Stateful.Upload.check, FmgoUpload.check, check_record, h.id, h.owner, h.accepted, h.accepted']

include hu

/-- The services disagree about the error only where both of the last two checks fail. -/
theorem chunk_errors_eq_iff :
    (v.chunk owner id offset data).1.error = (u.chunk owner id offset data).1.error ↔
      ¬ Overreaches u owner id offset data := by
  rw [FmgoUpload.chunk_error hu, Stateful.Upload.chunk_error, h.check, h.size, h.received]
  by_cases hcheck : u.check owner id .accepted = .none
  swap
  · -- nothing beyond the check is looked at
    rw [if_pos hcheck, if_pos hcheck]
    refine iff_of_true rfl ?_
    rintro ⟨rfl, rfl, _, _, _, _⟩
    obtain ⟨staged, _⟩ := hu.of_accepted h.accepted
    apply hcheck
    simp [FmgoUpload.check, check_record, staged.id, staged.owner_ne, h.accepted]
  have hchecked := check_eq_none hcheck
  rw [if_neg (not_not.mpr hcheck), if_neg (not_not.mpr hcheck)]
  by_cases hempty : data = []
  · simp only [hempty, decide_true, Bool.true_or, if_true, true_iff]
    exact fun hover => hover.some_data rfl
  by_cases hlong : data.length > 1024
  · have hmax : data.length > FmgoUpload.target.max_chunk := hlong
    simp only [hlong, hmax, decide_true, Bool.or_true, Bool.true_or, if_true, true_iff]
    exact fun hover => absurd hover.size (not_le.mpr hlong)
  have hmax : ¬ data.length > FmgoUpload.target.max_chunk := hlong
  simp only [hempty, hlong, hmax, decide_false, Bool.false_or, Bool.false_eq_true, if_false,
    decide_eq_true_eq]
  by_cases hfits : data.length > u.last.size - u.last.received
  · by_cases hoffset : offset = u.last.received
    · simp only [hfits, hoffset, ne_eq, not_true_eq_false, if_true, if_false, true_iff]
      exact fun hover => hover.offset_ne rfl
    · simp only [hfits, hoffset, ne_eq, not_false_iff, if_true, reduceCtorEq, false_iff, not_not]
      exact ⟨hchecked.owner_eq, hchecked.id_eq, hempty, not_lt.mp hlong, hoffset, hfits⟩
  · simp only [hfits, if_false, true_iff]
    exact fun hover => hfits hover.too_long

include hv

/-- Where they agree about the error, they agree about everything. -/
theorem chunk_alike (hover : ¬ Overreaches u owner id offset data) :
    ChunkAlike u v owner id offset data := by
  have herror := (chunk_errors_eq_iff hu h owner id offset data).mpr hover
  obtain ⟨staged, _⟩ := hu.of_accepted h.accepted
  obtain ⟨staged', _⟩ := hv.of_accepted h.accepted'
  have hresent : owner = u.owner → id = u.last.id → data ≠ [] → data.length ≤ 1024 →
      offset ≠ u.last.received → (u.chunk owner id offset data).1.error = .wrong_offset := by
    rintro rfl rfl hsome hsize hoffset
    have hmax : ¬ data.length > FmgoUpload.target.max_chunk := not_lt.mpr hsize
    rw [FmgoUpload.chunk_error hu]
    simp [FmgoUpload.check, check_record, staged.id, staged.owner_ne, h.accepted, hsome, hmax, hoffset]
  have hboth : owner = u.owner → id = u.last.id → data ≠ [] → data.length ≤ 1024 →
      offset ≠ u.last.received → (u.chunk owner id offset data).1.error = .wrong_offset ∧
        (v.chunk owner id offset data).1.error = .wrong_offset := by
    intro howner hid hsome hsize hoffset
    have hu' := hresent howner hid hsome hsize hoffset
    exact ⟨hu', herror.trans hu'⟩
  rcases FmgoUpload.chunk_cases u owner id offset data with ⟨hbad, hsame⟩ | hc
  · rcases Stateful.Upload.chunk_cases v owner id offset data with ⟨_, hsame'⟩ | hc'
    · refine ⟨herror, ?_, ?_, ⟨[], ?_, ?_⟩, hboth⟩
      · rw [hsame, hsame', h.accepted, h.accepted']
      · rw [hsame, hsame', h.received]
      · rw [hsame, List.append_nil]
      · rw [hsame', List.append_nil]
    · rw [hc'.answer_eq] at herror
      exact absurd herror.symm hbad
  · rcases Stateful.Upload.chunk_cases v owner id offset data with ⟨hbad', _⟩ | hc'
    · rw [hc.answer_eq] at herror
      exact absurd herror hbad'
    · refine ⟨herror, ?_, ?_, ⟨data, ?_, ?_⟩, hboth⟩
      · rw [hc.after, hc'.after]
        exact h.accepted'.trans h.accepted.symm
      · rw [hc.after, hc'.after]
        exact congrArg (· + data.length) h.received
      · rw [FmgoUpload.staged, FmgoUpload.staged, hu.staged_eq h.accepted]
        exact (hu.chunked hc).staged_eq (by rw [hc.after]; exact h.accepted)
      · rw [Stateful.Upload.staged, Stateful.Upload.staged, hv.staged_eq h.accepted']
        exact (hv.chunked hc').staged_eq (by rw [hc'.after]; exact h.accepted')

end Compare

/-- **The services answer chunks alike, but for one kind.** In every two states the services
reach in which they hold an accepted upload with the same ID, owner, size and count, and for
every chunk call: they answer and change alike if and only if the chunk is not one of the
owner's that is at another offset and longer than what is missing. -/
theorem chunks_answered_alike_iff (api : ℕ) (ops : List ServiceOp)
    (contract resident : Stateful.Contract) (arena : Stateful.Arena) (stateful_ops : List Stateful.Op)
    (h : SameUpload (ServiceRun.after api ops).service
      (Stateful.Run.after contract resident arena stateful_ops).service)
    (owner : UInt32) (id offset : ℕ) (data : List Byte) :
    ChunkAlike (ServiceRun.after api ops).service
        (Stateful.Run.after contract resident arena stateful_ops).service owner id offset data ↔
      ¬ Overreaches (ServiceRun.after api ops).service owner id offset data := by
  have hu := (ServiceRun.logged_after api ops).phase
  have hv := (Stateful.Run.logged_after contract resident arena stateful_ops).phase
  refine ⟨?_, chunk_alike hu hv h owner id offset data⟩
  exact fun halike => (chunk_errors_eq_iff hu h owner id offset data).mp halike.error

/-- An upload of 260 bytes, begun in both services and received in one chunk. -/
def received_run : List ServiceOp :=
  [.begin 1 260 [] true, .chunk 1 1 0 (List.replicate 260 0)]

/-- The FMS2 resident of that run. -/
def received_contract : Stateful.Contract := ⟨0x10000100, 0x20001000, 4096, 4096⟩

/-- Its second half, before the first has come, is refused by both in the same way. -/
theorem chunks_answered_alike_partial : ChunkAlike
    (ServiceRun.after 0x10000100 (received_run.take 1)).service
    (Stateful.Run.after received_contract received_contract ⟨none, 0⟩
      ((received_run.take 1).map .call)).service 1 1 130 (List.replicate 130 0) := by
  refine (chunks_answered_alike_iff 0x10000100 (received_run.take 1) received_contract received_contract
    ⟨none, 0⟩ ((received_run.take 1).map .call) ?_ 1 1 130 (List.replicate 130 0)).mpr ?_
  · constructor <;> decide +kernel
  · intro hover
    have hlong := hover.too_long
    revert hlong
    decide +kernel

/-- The whole of it that comes again is `wrong_offset` to one service and `invalid_argument`
to the other. -/
theorem resent_chunk_told_apart :
    SameUpload (ServiceRun.after 0x10000100 received_run).service
      (Stateful.Run.after received_contract received_contract ⟨none, 0⟩ (received_run.map .call)).service ∧
    ¬ ChunkAlike (ServiceRun.after 0x10000100 received_run).service
      (Stateful.Run.after received_contract received_contract ⟨none, 0⟩ (received_run.map .call)).service
      1 1 0 (List.replicate 260 0) := by
  refine ⟨?_, ?_⟩
  · constructor <;> decide +kernel
  · intro halike
    have herror := halike.error
    revert herror
    decide +kernel

end Firmingo.Managed
