/-
What reaches the flash through the FMS1 service.

Flash work happens once for an ID, in a poll, for a capsule that its owner began and
committed with the input armed; the log before it has the bytes, and they are what is
programmed, page by page.
-/
import Firmingo.FmgoUpload

set_option autoImplicit false

open Octets

namespace Firmingo.Managed

/-! ## Runs of the service -/

namespace FmgoUpload

/-- The service after a call, the error it answered and the accesses it made. -/
def call (u : FmgoUpload) : ServiceOp → FmgoUpload × UploadError × List (Hardware ImageInfo)
  | .begin owner size digest armed =>
    let (answer, u) := { u with armed := armed }.begin owner size digest
    (u, answer.error, [])
  | .chunk owner id offset data =>
    let (answer, u) := u.chunk owner id offset data
    (u, answer.error, [])
  | .finish owner id =>
    let (answer, u) := u.finish owner id
    (u, answer.error, [])
  | .commit owner id armed =>
    let (answer, u) := { u with armed := armed }.commit owner id
    (u, answer.error, [])
  | .abort owner id =>
    let (answer, u) := u.abort owner id
    (u, answer.error, [])
  | .status id => (u, (u.status id).error, [])
  | .disconnect owner => (u.disconnect owner, .none, [])
  | .poll now armed board returned =>
    let (u, accesses) := { u with armed := armed }.poll now board returned
    (u, .none, accesses)

def account (u : FmgoUpload) : Account := ⟨u.owner, u.next_id, u.last⟩

end FmgoUpload

/-- A service and its log. -/
structure ServiceRun where
  service : FmgoUpload
  log : List (Entry ImageInfo)

namespace ServiceRun

def step (r : ServiceRun) (op : ServiceOp) : ServiceRun :=
  let (service, error, accesses) := r.service.call op
  ⟨service, r.log ++ [⟨op, error, service.last, accesses⟩]⟩

/-- A run from the boot of a resident with the given API address. -/
def after (api : ℕ) (ops : List ServiceOp) : ServiceRun := Runs.run step ⟨{ api := api }, []⟩ ops

end ServiceRun

/-- `validate_image` accepts the whole capsule for the resident with this API address. -/
def Accepted (api : ℕ) (capsule : List Byte) : Prop :=
  ∃ info, validate_image (some capsule) capsule.length api = .ok info

/-! ## The invariant -/

namespace FmgoUpload

/-- The service and its log agree. -/
structure Logged (api : ℕ) (u : FmgoUpload) (log : List (Entry ImageInfo)) : Prop where
  api_eq : u.api = api
  phase : Phase u (chunks u.last.id log)
  recorded : u.account.Recorded (Accepted api) log

variable {api : ℕ} {u u' : FmgoUpload} {log : List (Entry ImageInfo)} {e : Entry ImageInfo}

theorem Same.account (h : Same u u') : u.account.Same u'.account :=
  ⟨h.id, h.size, h.digest, h.owner, h.next_id⟩

/-- The log of a call that keeps the resident's address. -/
theorem Logged.of_recorded {bytes : List Byte} (h : Logged api u log) (hapi : u'.api = u.api)
    (hphase : Phase u' bytes)
    (hrecorded : u'.account.Recorded (Accepted api) (log ++ [e]) ∧ chunks u'.last.id (log ++ [e]) = bytes) :
    Logged api u' (log ++ [e]) := by
  refine ⟨hapi.trans h.api_eq, ?_, hrecorded.1⟩
  rw [hrecorded.2]
  exact hphase

/-- The level of the arm input is no part of the invariant. -/
theorem Phase.arm {bytes : List Byte} (h : Phase u bytes) (armed : Bool) :
    Phase { u with armed := armed } bytes := by
  cases h with
  | idle closed stage room switching pending => exact .idle closed stage room switching pending
  | accepted state staged verified switching pending =>
    exact .accepted state (staged.of_eq rfl rfl rfl rfl rfl rfl rfl) verified switching pending
  | verified state staged verified good switching pending =>
    exact .verified state (staged.of_eq rfl rfl rfl rfl rfl rfl rfl) verified good switching pending
  | queued state staged verified good switching pending =>
    exact .queued state (staged.of_eq rfl rfl rfl rfl rfl rfl rfl) verified good switching pending
  | switching state staged verified good switching api pending =>
    exact .switching state (staged.of_eq rfl rfl rfl rfl rfl rfl rfl) verified good switching api
      pending

theorem Logged.arm (h : Logged api u log) (armed : Bool) : Logged api { u with armed := armed } log :=
  ⟨h.api_eq, h.phase.arm armed, h.recorded⟩

/-- A call that changes nothing. -/
theorem Logged.refused (h : Logged api u log) (hsame : u' = u) (hpoll : e.op.is_poll = false)
    (hquiet : e.accesses = []) (hrecord : e.record = u'.last) (hnone : ∀ id, e.accepted id = []) :
    Logged api u' (log ++ [e]) := by
  subst hsame
  exact h.of_recorded rfl h.phase (h.recorded.refused hpoll hquiet hrecord hnone)

/-- A call that closes the transaction without reaching the hardware. -/
theorem Logged.closes (h : Logged api u log) (hpoll : e.op.is_poll = false) (hquiet : e.accesses = [])
    (hrecord : e.record = u'.last) (hnone : ∀ id, e.accepted id = [])
    (hphase : Phase u' (chunks u.last.id log)) (hsame : Same u u')
    (hclosed : is_open u'.last.state = false) : Logged api u' (log ++ [e]) :=
  h.of_recorded hsame.api hphase
    (h.recorded.closes hpoll hquiet hrecord hnone hsame.account hclosed)

/-- A transaction that its owner gives up. -/
theorem Logged.aborted {owner : UInt32} {error : UploadError} (h : Logged api u log)
    (ha : Aborted u owner u' error) (hpoll : e.op.is_poll = false) (hquiet : e.accesses = [])
    (hrecord : e.record = u'.last) (hnone : ∀ id, e.accepted id = []) : Logged api u' (log ++ [e]) := by
  refine h.closes hpoll hquiet hrecord hnone (h.phase.aborted ha) ?_ ?_
  · rw [ha.after]
    exact ⟨rfl, rfl, rfl, rfl, rfl, rfl⟩
  · rw [ha.after]
    rfl

/-- A poll: flash work is authorised by what the log says. -/
theorem Logged.poll (h : Logged api u log) (now : UInt32) (board : Board) (returned : Bool)
    (hop : e.op = .poll now u.armed board returned) (hrecord : e.record = (u.poll now board returned).1.last)
    (haccesses : e.accesses = (u.poll now board returned).2) :
    Logged api (u.poll now board returned).1 (log ++ [e]) := by
  have hp := h.phase.polled now board returned
  have hsame : Same u (u.poll now board returned).1 :=
    ⟨hp.id, hp.size, hp.digest, hp.owner, hp.next_id, hp.api⟩
  refine h.of_recorded hsame.api hp.phase
    (h.recorded.poll (b := (u.poll now board returned).1.account) hop hrecord hsame.account ?_ ?_ ?_)
  · rw [haccesses]
    exact hp.made
  · rintro ⟨x, hx, hflash⟩
    obtain ⟨hcommitting, hclosed⟩ := hp.flashed ⟨x, by rw [← haccesses]; exact hx, hflash⟩
    obtain ⟨staged, _, good, _⟩ := h.phase.of_committing hcommitting
    obtain ⟨info, hinfo, _⟩ := good.image
    rw [h.api_eq] at hinfo
    exact ⟨hcommitting, hclosed, staged.id, good.length, good.digest, info, hinfo⟩
  · intro hopen
    rcases hp.state with hs | ⟨_, _, hs⟩ | ⟨_, hs | ⟨hs, _⟩⟩
    · exact hs
    all_goals
      change is_open (u.poll now board returned).1.last.state = true at hopen
      rw [hs] at hopen
      cases hopen

/-- **Every call keeps the service and its log in agreement.** -/
theorem Logged.step (h : Logged api u log) (op : ServiceOp) :
    Logged api (u.call op).1
      (log ++ [⟨op, (u.call op).2.1, (u.call op).1.last, (u.call op).2.2⟩]) := by
  cases op with
  | begin owner size digest armed =>
    have h' := h.arm armed
    rcases begin_cases { u with armed := armed } owner size digest with ⟨_, hsame⟩ | hb
    · exact h'.refused hsame rfl rfl rfl (fun _ => rfl)
    · obtain rfl : armed = true := hb.armed
      have hapi : ({ u with armed := true }.begin owner size digest).2.api = u.api := by rw [hb.after]
      have haccount : ({ u with armed := true }.begin owner size digest).2.account
          = ⟨owner, (u.next_id + 1) % 2 ^ 32,
            { id := u.next_id, size := size, state := .accepted, digest := digest }⟩ := by
        rw [hb.after]
        rfl
      exact h'.of_recorded hapi (h'.phase.begun hb)
        (h'.recorded.begin hb.next_ne haccount rfl (congrArg UploadAnswer.error hb.answer_eq) rfl rfl)
  | chunk owner id offset data =>
    rcases chunk_cases u owner id offset data with ⟨herror, hsame⟩ | hc
    · exact h.refused hsame rfl rfl rfl (fun _ => if_neg fun hand => herror hand.2)
    · have hsame : Same u (u.chunk owner id offset data).2 := by
        rw [hc.after]
        exact ⟨rfl, rfl, rfl, rfl, rfl, rfl⟩
      refine h.of_recorded hsame.api (h.phase.chunked hc)
        (h.recorded.chunk hc.checked.id_eq hc.checked.state hsame.account ?_ rfl
          (congrArg UploadAnswer.error hc.answer_eq) rfl rfl)
      change (u.chunk owner id offset data).2.last.state = u.last.state
      rw [hc.after]
  | finish owner id =>
    rcases finish_cases u owner id with ⟨_, hsame⟩ | hspoiled | hf
    · exact h.refused hsame rfl rfl rfl (fun _ => rfl)
    -- a capsule that is found wrong closes its record
    · obtain ⟨stage, _, hafter⟩ := hspoiled.after
      refine h.closes rfl rfl rfl (fun _ => rfl) (h.phase.spoiled hspoiled) ?_ ?_
      · simp only [call, hafter]
        exact ⟨rfl, rfl, rfl, rfl, rfl, rfl⟩
      · simp only [call, hafter]
        rfl
    · have hsame : Same u (u.finish owner id).2 := by
        rw [hf.after]
        exact ⟨rfl, rfl, rfl, rfl, rfl, rfl⟩
      have hstate : (u.finish owner id).2.last.state = .verified := by rw [hf.after]
      refine h.of_recorded hsame.api (h.phase.finished hf)
        (h.recorded.quiet rfl rfl rfl (fun _ => rfl) hsame.account ?_ ?_)
      · intro hc
        cases hstate.symm.trans hc
      · intro _
        change is_open u.last.state = true
        rw [hf.checked.state]
        rfl
  | commit owner id armed =>
    have h' := h.arm armed
    rcases commit_cases { u with armed := armed } owner id with ⟨_, hsame⟩ |
      ⟨hchecked, harmed, hanswer, hafter⟩
    · exact h'.refused hsame rfl rfl rfl (fun _ => rfl)
    · obtain rfl : armed = true := harmed
      have hsame : Same { u with armed := true } ({ u with armed := true }.commit owner id).2 := by
        rw [hafter]
        exact ⟨rfl, rfl, rfl, rfl, rfl, rfl⟩
      have hphase := h'.phase.committed hchecked.state
      rw [← hafter] at hphase
      -- the record is committing now, and this entry is the commit that it names
      refine h'.of_recorded hsame.api hphase
        (h'.recorded.quiet rfl rfl rfl (fun _ => rfl) hsame.account ?_ ?_)
      · intro _
        refine .inr ⟨?_, congrArg UploadAnswer.error hanswer⟩
        rw [hchecked.owner_eq, hchecked.id_eq]
        rfl
      · intro _
        change is_open u.last.state = true
        rw [show u.last.state = .verified from hchecked.state]
        rfl
  | abort owner id =>
    rcases abort_cases u owner id with ⟨_, hsame⟩ | ⟨_, _, _, ha⟩
    · exact h.refused hsame rfl rfl rfl (fun _ => rfl)
    · exact h.aborted ha rfl rfl rfl (fun _ => rfl)
  | status id => exact h.refused rfl rfl rfl rfl (fun _ => rfl)
  | disconnect owner =>
    rcases disconnect_cases u owner with hsame | ha
    · exact h.refused hsame rfl rfl rfl (fun _ => rfl)
    · exact h.aborted ha rfl rfl rfl (fun _ => rfl)
  | poll now armed board returned => exact (h.arm armed).poll now board returned rfl rfl rfl

end FmgoUpload

/-! ## Every run -/

theorem ServiceRun.logged_after (api : ℕ) (ops : List ServiceOp) :
    FmgoUpload.Logged api (ServiceRun.after api ops).service (ServiceRun.after api ops).log := by
  refine Runs.run_invariant (P := fun r => FmgoUpload.Logged api r.service r.log) ServiceRun.step ?_
    (fun r op h => h.step op) ops
  exact ⟨rfl, .idle rfl rfl List.length_replicate rfl rfl, .initial rfl rfl⟩

/-- **Flash is only written for an authorised upload, and only with its bytes.** In every
run of the service, with any calls, any arm input and any hardware: only polls reach the
hardware; a poll that is not armed, or finds core 1 not parked, touches the pause alone; an
erase stops the sketch first, programs the pages of the chunks accepted for its ID, the last
one filled up with erased bytes, all of them unless the port refuses one, and starts the
sketch only after it read them back; and no ID, begun and committed with the input armed for
the size and digest of those chunks, has flash work in two polls. -/
theorem flash_safety (api : ℕ) (ops : List ServiceOp) :
    FlashSafe (Accepted api) (ServiceRun.after api ops).log :=
  (ServiceRun.logged_after api ops).recorded.safe

/-- The bytes that were handed to the flash port. -/
def handed (accesses : List (Hardware ImageInfo)) : List Byte := accesses.flatMap fun
  | .flash_program _ page _ => page
  | _ => []

/-- The smallest image: a header, its padding and four bytes of code. -/
def sample_image : List Byte :=
  let code : List Byte := [0, 0xbf, 0xfe, 0xe7]
  ascii "FMS1" ++ [1, 0, 64, 0] ++ ascii "NANO" ++ [0, 1, 0, 0x10] ++ [0, 1, 0x20, 0x10]
    ++ [4, 0, 0, 0] ++ [1, 1, 0x20, 0x10] ++ [1, 1, 0x20, 0x10] ++ sha256 code
    ++ List.replicate 192 0 ++ code

/-- A board that grants everything and reads back the image. -/
def sample_board : Board where
  request := true
  parked := true
  flash_begin := true
  erase := true
  program _ := true
  installed := some sample_image
  slot := some sample_image

/-- An upload of that image that is installed. -/
def install_run : List ServiceOp :=
  [.begin 1 260 (sha256 sample_image) true, .chunk 1 1 0 sample_image, .finish 1 1, .commit 1 1 true,
    .poll 0 true sample_board false]

/-- The bytes that are programmed are not exactly the chunks: the last page is filled up. -/
theorem handed_not_chunks : ∃ before e rest,
    (ServiceRun.after 0x10000100 install_run).log = before ++ e :: rest ∧ e.flashes ∧
      handed e.accesses ≠ chunks e.record.id before := by
  generalize hlog : (ServiceRun.after 0x10000100 install_run).log = log
  have hfacts : ((log.drop 4).map fun e => (decide e.flashes, e.record.id, (handed e.accesses).length))
      = [(true, 1, 512)] ∧ (chunks 1 (log.take 4)).length = 260 := by
    rw [← hlog]
    decide +kernel
  obtain ⟨hlast, hchunks⟩ := hfacts
  obtain ⟨e, he⟩ : ∃ e, log.drop 4 = [e] := by
    rw [← List.length_eq_one_iff, ← List.length_map, hlast]
    rfl
  rw [he, List.map_singleton, List.singleton_inj, Prod.mk.injEq, Prod.mk.injEq, decide_eq_true_eq] at hlast
  obtain ⟨hflashes, hid, hlength⟩ := hlast
  refine ⟨log.take 4, e, [], by rw [← he, List.take_append_drop], hflashes, ?_⟩
  intro heq
  rw [heq, hid, hchunks] at hlength
  cases hlength

end Firmingo.Managed
