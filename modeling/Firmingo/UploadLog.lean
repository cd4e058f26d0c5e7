/-
The log of an upload service, and what it says about flash.

A run of a service is a list of calls, by any owners, and of polls, with the arm input and
the hardware as they please. The log has for every call its answer, the record after it and
the hardware accesses it made, so the history of an upload ID can be read off it: the begin,
the accepted chunks and the commit.

Nothing here depends on how a service keeps its stage. What both services share is the
`Account`: the owner, the record and the counter of IDs. `Recorded` says that the account
agrees with the log, with one rule for each kind of call.
-/
import Firmingo.Install
import Firmingo.Runs
import Firmingo.Upload

set_option autoImplicit false

open Octets

namespace Firmingo.Managed

/-- The states in which a transaction is open. -/
def is_open : UploadState → Bool
  | .accepted | .verified | .committing => true
  | _ => false

/-- What both services check before they touch a transaction. -/
def check_record (last : UploadStatus) (holder owner : UInt32) (id : ℕ) (expected : UploadState) :
    UploadError :=
  if id = 0 || id ≠ last.id then .wrong_target
  else if owner = 0 || owner ≠ holder then .wrong_owner
  else if last.state ≠ expected then .invalid_state
  else .none

/-- A passed check. -/
structure Checked (last : UploadStatus) (holder owner : UInt32) (id : ℕ) (expected : UploadState) :
    Prop where
  id_ne : id ≠ 0
  id_eq : id = last.id
  owner_ne : owner ≠ 0
  owner_eq : owner = holder
  state : last.state = expected

theorem check_eq_none {last : UploadStatus} {holder owner : UInt32} {id : ℕ} {expected : UploadState}
    (h : check_record last holder owner id expected = .none) : Checked last holder owner id expected := by
  unfold check_record at h
  split at h
  · cases h
  next hid =>
  split at h
  · cases h
  next howner =>
  split at h
  · cases h
  next hstate =>
  simp only [ne_eq, Bool.or_eq_true, decide_eq_true_eq, not_or, not_not] at hid howner hstate
  exact ⟨hid.1, hid.2, howner.1, howner.2, hstate⟩

/-- Where an open transaction has an ID, it is what blocks the console. -/
theorem blocks_eq {last : UploadStatus} (h : is_open last.state = true → last.id ≠ 0) :
    (decide (last.id ≠ 0) && is_open last.state) = is_open last.state := by
  cases hopen : is_open last.state with
  | false => exact Bool.and_false _
  | true => simpa using h hopen

/-! ## Calls and their log -/

/-- A call of a service, with the arm input where it is read and what the hardware answers
to a poll. The last answer of a poll is the format's own: `generation_returned_` of an FMS1
resident, and whether the slot overlaps the arena of an FMS2 resident. -/
inductive ServiceOp
  | begin (owner : UInt32) (size : ℕ) (digest : List Byte) (armed : Bool)
  | chunk (owner : UInt32) (id offset : ℕ) (data : List Byte)
  | finish (owner : UInt32) (id : ℕ)
  | commit (owner : UInt32) (id : ℕ) (armed : Bool)
  | abort (owner : UInt32) (id : ℕ)
  | status (id : ℕ)
  | disconnect (owner : UInt32)
  | poll (now : UInt32) (armed : Bool) (board : Board) (answer : Bool)

/-- What the log says of a call: its error, the record after it, its accesses. -/
structure Entry (ι : Type) where
  op : ServiceOp
  error : UploadError
  record : UploadStatus
  accesses : List (Hardware ι)

def ServiceOp.is_poll : ServiceOp → Bool
  | .poll _ _ _ _ => true
  | _ => false

section Log

variable {ι : Type}

/-- The bytes an entry adds to upload `id`. -/
def Entry.accepted (id : ℕ) (e : Entry ι) : List Byte :=
  match e.op with
  | .chunk _ i _ data => if i = id ∧ e.error = .none then data else []
  | _ => []

/-- The chunks accepted for upload `id`, in order. -/
def chunks (id : ℕ) (log : List (Entry ι)) : List Byte := log.flatMap (Entry.accepted id)

/-- The call worked on the flash. -/
def Entry.flashes (e : Entry ι) : Prop := ∃ x ∈ e.accesses, is_flash x = true

instance (e : Entry ι) : Decidable e.flashes :=
  inferInstanceAs (Decidable (∃ x ∈ e.accesses, is_flash x = true))

/-- The record of a poll that works on the flash was begun and committed with the input armed, and its
capsule is what was announced, and an image. -/
structure Authorised (image : List Byte → Prop) (before : List (Entry ι)) (id : ℕ) : Prop where
  id_ne : id ≠ 0
  history : ∃ owner size digest,
    (∃ b ∈ before, b.op = .begin owner size digest true ∧ b.error = .none ∧ b.record.id = id) ∧
    (∃ c ∈ before, c.op = .commit owner id true ∧ c.error = .none) ∧
    (chunks id before).length = size ∧ sha256 (chunks id before) = digest
  image_ok : image (chunks id before)

/-- What a log says about flash. -/
structure FlashSafe (image : List Byte → Prop) (log : List (Entry ι)) : Prop where
  /-- Only polls reach the hardware. -/
  outside : ∀ e ∈ log, e.op.is_poll = false → e.accesses = []
  /-- A poll asks nothing, the pause, or, if it is armed and core 1 is parked, one
  installation of the chunks accepted for the ID. -/
  inside : ∀ before e rest, log = before ++ e :: rest → ∀ now armed board answer,
    e.op = .poll now armed board answer →
    Accesses armed board.parked (chunks e.record.id before) e.accesses
  authorised : ∀ before e rest, log = before ++ e :: rest → e.flashes →
    Authorised image before e.record.id
  /-- For no ID is there flash work in two polls. -/
  once : ∀ before e mid e' rest, log = before ++ e :: (mid ++ e' :: rest) → e.flashes → e'.flashes →
    e'.record.id ≠ e.record.id

theorem chunks_concat (id : ℕ) (log : List (Entry ι)) (e : Entry ι) :
    chunks id (log ++ [e]) = chunks id log ++ e.accepted id := by
  simp [chunks]

theorem Entry.not_flashes {e : Entry ι} (h : e.accesses = []) : ¬ e.flashes := by
  rintro ⟨x, hx, _⟩
  rw [h] at hx
  cases hx

variable {image : List Byte → Prop} {log : List (Entry ι)} {e : Entry ι}

theorem FlashSafe.nil : FlashSafe image ([] : List (Entry ι)) :=
  ⟨by simp, by simp, by simp, by simp⟩

/-- A log with one more entry. -/
theorem FlashSafe.concat (h : FlashSafe image log)
    (houtside : e.op.is_poll = false → e.accesses = [])
    (hinside : ∀ now armed board answer, e.op = .poll now armed board answer →
      Accesses armed board.parked (chunks e.record.id log) e.accesses)
    (hauthorised : e.flashes → Authorised image log e.record.id)
    (honce : e.flashes → ∀ e' ∈ log, e'.flashes → e.record.id ≠ e'.record.id) :
    FlashSafe image (log ++ [e]) := by
  refine ⟨?_, ?_, ?_, ?_⟩
  · intro x hx hpoll
    rcases List.mem_append.mp hx with hx | hx
    · exact h.outside x hx hpoll
    · rw [List.mem_singleton.mp hx] at hpoll ⊢
      exact houtside hpoll
  · intro before x rest hsplit now armed board answer hop
    rcases Runs.concat_eq_split hsplit with ⟨rfl, rfl, -⟩ | ⟨rest', -, hlog⟩
    · exact hinside now armed board answer hop
    · exact h.inside before x rest' hlog now armed board answer hop
  · intro before x rest hsplit hflashes
    rcases Runs.concat_eq_split hsplit with ⟨rfl, rfl, -⟩ | ⟨rest', -, hlog⟩
    · exact hauthorised hflashes
    · exact h.authorised before x rest' hlog hflashes
  · intro before x mid y rest hsplit hx hy
    rw [show before ++ x :: (mid ++ y :: rest) = (before ++ x :: mid) ++ y :: rest by simp] at hsplit
    rcases Runs.concat_eq_split hsplit with ⟨hlog, rfl, -⟩ | ⟨rest', -, hlog⟩
    · exact honce hy x (by rw [← hlog]; simp) hx
    · exact h.once before x mid y rest' (by rw [hlog]; simp) hx hy

/-- A call that does not reach the hardware. -/
theorem FlashSafe.quiet (h : FlashSafe image log) (hpoll : e.op.is_poll = false)
    (haccesses : e.accesses = []) : FlashSafe image (log ++ [e]) := by
  have hno := Entry.not_flashes haccesses
  refine h.concat (fun _ => haccesses) ?_ (fun he => absurd he hno) (fun he => absurd he hno)
  intro now armed board answer hop
  rw [hop] at hpoll
  cases hpoll

end Log

/-! ## The account of a service -/

/-- What a service keeps of the uploads of this boot. -/
structure Account where
  owner : UInt32
  next_id : ℕ
  last : UploadStatus

namespace Account

/-- The first ID that was not given out yet. -/
def fresh (a : Account) : ℕ := if a.next_id = 0 then 2 ^ 32 else a.next_id

/-- The two accounts are about the same upload. -/
structure Same (a b : Account) : Prop where
  id : b.last.id = a.last.id
  size : b.last.size = a.last.size
  digest : b.last.digest = a.last.digest
  owner : b.owner = a.owner
  next_id : b.next_id = a.next_id

theorem Same.refl (a : Account) : Same a a := ⟨rfl, rfl, rfl, rfl, rfl⟩

theorem Same.fresh {a b : Account} (h : Same a b) : b.fresh = a.fresh := by
  rw [Account.fresh, h.next_id, Account.fresh]

variable {ι : Type}

/-- The account and the log agree. -/
structure Recorded (image : List Byte → Prop) (a : Account) (log : List (Entry ι)) : Prop where
  next_le : a.next_id < 2 ^ 32
  last_lt : a.last.id < a.fresh
  ids : ∀ e ∈ log, e.record.id < a.fresh
  chunked : ∀ e ∈ log, ∀ id, e.accepted id ≠ [] → id = e.record.id
  begun : a.last.id ≠ 0 → ∃ b ∈ log,
    b.op = .begin a.owner a.last.size a.last.digest true ∧ b.error = .none ∧ b.record.id = a.last.id
  committed : a.last.state = .committing → ∃ c ∈ log,
    c.op = .commit a.owner a.last.id true ∧ c.error = .none
  flashed : ∀ e ∈ log, e.flashes → e.record.id = a.last.id → is_open a.last.state = false
  safe : FlashSafe image log

variable {image : List Byte → Prop} {a b : Account} {log : List (Entry ι)} {e : Entry ι}

/-- The account of a service that has just been made. -/
theorem Recorded.initial (hnext : a.next_id = 1) (hlast : a.last = {}) :
    Recorded image a ([] : List (Entry ι)) := by
  refine ⟨by rw [hnext]; norm_num, ?_, by simp, by simp, ?_, ?_, by simp, .nil⟩
  · rw [hlast, fresh, hnext]
    decide
  · intro h
    rw [hlast] at h
    exact absurd rfl h
  · intro h
    rw [hlast] at h
    cases h

variable (h : Recorded image a log)

include h

/-- What was in the log about the IDs stays, if the account is about the same upload. -/
theorem Recorded.begun_of_same (hsame : Same a b) (hne : b.last.id ≠ 0) :
    ∃ x ∈ log ++ [e], x.op = .begin b.owner b.last.size b.last.digest true ∧ x.error = .none ∧
      x.record.id = b.last.id := by
  rw [hsame.id] at hne
  obtain ⟨x, hx, hop⟩ := h.begun hne
  refine ⟨x, List.mem_append_left _ hx, ?_⟩
  rw [hsame.owner, hsame.size, hsame.digest, hsame.id]
  exact hop

theorem Recorded.ids_of_same (hsame : Same a b) (hrecord : e.record = b.last) :
    ∀ x ∈ log ++ [e], x.record.id < b.fresh := by
  intro x hx
  rw [hsame.fresh]
  rcases List.mem_append.mp hx with hx | hx
  · exact h.ids x hx
  · rw [List.mem_singleton.mp hx, hrecord, hsame.id]
    exact h.last_lt

theorem Recorded.chunked_concat
    (he : ∀ id, e.accepted id ≠ [] → id = e.record.id) :
    ∀ x ∈ log ++ [e], ∀ id, x.accepted id ≠ [] → id = x.record.id := by
  intro x hx id hne
  rcases List.mem_append.mp hx with hx | hx
  · exact h.chunked x hx id hne
  · rw [List.mem_singleton.mp hx] at hne ⊢
    exact he id hne

/-- A call that neither begins an upload nor adds bytes to it. -/
theorem Recorded.moved (hsafe : FlashSafe image (log ++ [e]))
    (hrecord : e.record = b.last) (hnone : ∀ id, e.accepted id = []) (hsame : Same a b)
    (hcommitted : b.last.state = .committing →
      a.last.state = .committing ∨ e.op = .commit a.owner a.last.id true ∧ e.error = .none)
    (hopen : is_open b.last.state = true → is_open a.last.state = true ∧ ¬ e.flashes) :
    Recorded image b (log ++ [e]) ∧ chunks b.last.id (log ++ [e]) = chunks a.last.id log := by
  refine ⟨⟨?_, ?_, h.ids_of_same hsame hrecord, ?_, h.begun_of_same hsame, ?_, ?_, hsafe⟩, ?_⟩
  · rw [hsame.next_id]
    exact h.next_le
  · rw [hsame.id, hsame.fresh]
    exact h.last_lt
  · refine h.chunked_concat ?_
    intro id hne
    rw [hnone] at hne
    exact absurd rfl hne
  · intro hstate
    rw [hsame.owner, hsame.id]
    rcases hcommitted hstate with hbefore | hnow
    · obtain ⟨c, hc, hop⟩ := h.committed hbefore
      exact ⟨c, List.mem_append_left _ hc, hop⟩
    · exact ⟨e, by simp, hnow⟩
  · intro x hx hflashes hxid
    by_contra hno
    obtain ⟨hbefore, hquiet⟩ := hopen (by simpa using hno)
    rcases List.mem_append.mp hx with hx | hx
    · have hclosed := h.flashed x hx hflashes (by rw [← hsame.id]; exact hxid)
      rw [hbefore] at hclosed
      cases hclosed
    · rw [List.mem_singleton.mp hx] at hflashes
      exact hquiet hflashes
  · rw [chunks_concat, hnone, List.append_nil, hsame.id]

/-- A call that does not reach the hardware, and opens or commits nothing. -/
theorem Recorded.quiet (hpoll : e.op.is_poll = false)
    (haccesses : e.accesses = []) (hrecord : e.record = b.last) (hnone : ∀ id, e.accepted id = [])
    (hsame : Same a b)
    (hcommitted : b.last.state = .committing →
      a.last.state = .committing ∨ e.op = .commit a.owner a.last.id true ∧ e.error = .none)
    (hopen : is_open b.last.state = true → is_open a.last.state = true) :
    Recorded image b (log ++ [e]) ∧ chunks b.last.id (log ++ [e]) = chunks a.last.id log :=
  h.moved (h.safe.quiet hpoll haccesses) hrecord hnone hsame hcommitted
    (fun ho => ⟨hopen ho, Entry.not_flashes haccesses⟩)

/-- A call that changes nothing. -/
theorem Recorded.refused (hpoll : e.op.is_poll = false)
    (haccesses : e.accesses = []) (hrecord : e.record = a.last) (hnone : ∀ id, e.accepted id = []) :
    Recorded image a (log ++ [e]) ∧ chunks a.last.id (log ++ [e]) = chunks a.last.id log :=
  h.quiet hpoll haccesses hrecord hnone (.refl a) .inl id

/-- A call that closes the transaction without reaching the hardware. -/
theorem Recorded.closes (hpoll : e.op.is_poll = false)
    (haccesses : e.accesses = []) (hrecord : e.record = b.last) (hnone : ∀ id, e.accepted id = [])
    (hsame : Same a b) (hclosed : is_open b.last.state = false) :
    Recorded image b (log ++ [e]) ∧ chunks b.last.id (log ++ [e]) = chunks a.last.id log := by
  refine h.quiet hpoll haccesses hrecord hnone hsame ?_ ?_
  · intro hc
    rw [hc] at hclosed
    cases hclosed
  · intro ho
    rw [ho] at hclosed
    cases hclosed

/-- A new upload: nothing in the log is about its ID. -/
theorem Recorded.begin {owner : UInt32} {size : ℕ} {digest : List Byte}
    (hnext_ne : a.next_id ≠ 0)
    (hb : b = ⟨owner, (a.next_id + 1) % 2 ^ 32,
      { id := a.next_id, size := size, state := .accepted, digest := digest }⟩)
    (hop : e.op = .begin owner size digest true) (herror : e.error = .none)
    (hrecord : e.record = b.last) (haccesses : e.accesses = []) :
    Recorded image b (log ++ [e]) ∧ chunks b.last.id (log ++ [e]) = [] := by
  have hfresh : a.fresh = a.next_id := if_neg hnext_ne
  have hid : b.last.id = a.next_id := by rw [hb]
  have hnext : b.next_id = (a.next_id + 1) % 2 ^ 32 := by rw [hb]
  have hle := h.next_le
  have hfresh' : b.fresh = a.next_id + 1 := by
    rw [fresh, hnext]
    split <;> omega
  have hnone : ∀ id, e.accepted id = [] := by
    intro id
    rw [Entry.accepted, hop]
  -- every ID in the log is below the counter, so this one is new
  have hnew : ∀ x ∈ log, x.record.id ≠ b.last.id := by
    intro x hx hxid
    have hlt := h.ids x hx
    rw [hfresh, hxid, hid] at hlt
    omega
  refine ⟨⟨?_, ?_, ?_, ?_, ?_, ?_, ?_, h.safe.quiet (by rw [hop]; rfl) haccesses⟩, ?_⟩
  · rw [hnext]
    omega
  · rw [hid, hfresh']
    omega
  · intro x hx
    rw [hfresh']
    rcases List.mem_append.mp hx with hx | hx
    · have hlt := h.ids x hx
      omega
    · rw [List.mem_singleton.mp hx, hrecord, hid]
      omega
  · refine h.chunked_concat ?_
    intro id hne
    rw [hnone] at hne
    exact absurd rfl hne
  · intro _
    refine ⟨e, by simp, ?_, herror, by rw [hrecord]⟩
    rw [hop, hb]
  · intro hc
    rw [hb] at hc
    cases hc
  · intro x hx hflashes hxid
    rcases List.mem_append.mp hx with hx | hx
    · exact absurd hxid (hnew x hx)
    · rw [List.mem_singleton.mp hx] at hflashes
      exact absurd hflashes (Entry.not_flashes haccesses)
  · rw [chunks_concat, hnone, List.append_nil]
    refine List.flatMap_eq_nil_iff.mpr fun x hx => ?_
    by_contra hne
    exact hnew x hx (h.chunked x hx _ hne).symm

/-- An accepted chunk. -/
theorem Recorded.chunk {owner : UInt32} {id offset : ℕ} {data : List Byte}
    (hid : id = a.last.id) (haccepted_state : a.last.state = .accepted) (hsame : Same a b)
    (hstate : b.last.state = a.last.state) (hop : e.op = .chunk owner id offset data)
    (herror : e.error = .none) (hrecord : e.record = b.last) (haccesses : e.accesses = []) :
    Recorded image b (log ++ [e]) ∧ chunks b.last.id (log ++ [e]) = chunks a.last.id log ++ data := by
  have haccepted : ∀ i, e.accepted i = if i = a.last.id then data else [] := by
    intro i
    simp only [Entry.accepted, hop, herror, and_true, hid, eq_comm]
  refine ⟨⟨?_, ?_, h.ids_of_same hsame hrecord, ?_, h.begun_of_same hsame, ?_, ?_,
    h.safe.quiet (by rw [hop]; rfl) haccesses⟩, ?_⟩
  · rw [hsame.next_id]
    exact h.next_le
  · rw [hsame.id, hsame.fresh]
    exact h.last_lt
  · refine h.chunked_concat ?_
    intro i hne
    rw [haccepted] at hne
    rw [hrecord, hsame.id]
    by_contra hno
    exact hne (if_neg hno)
  · intro hcommitting
    rw [hstate, haccepted_state] at hcommitting
    cases hcommitting
  · intro x hx hflashes hxid
    rcases List.mem_append.mp hx with hx | hx
    · rw [hstate]
      exact h.flashed x hx hflashes (by rw [← hsame.id]; exact hxid)
    · rw [List.mem_singleton.mp hx] at hflashes
      exact absurd hflashes (Entry.not_flashes haccesses)
  · rw [chunks_concat, haccepted, hsame.id, if_pos rfl]

/-- A poll: flash work needs a committing record, ends it, and is for a complete capsule. The
rest of its authorisation is in the log. -/
theorem Recorded.poll {now : UInt32} {armed : Bool} {board : Board}
    {answer : Bool} (hop : e.op = .poll now armed board answer) (hrecord : e.record = b.last)
    (hsame : Same a b) (hmade : Accesses armed board.parked (chunks a.last.id log) e.accesses)
    (hflashed : e.flashes → a.last.state = .committing ∧ is_open b.last.state = false ∧
      a.last.id ≠ 0 ∧ (chunks a.last.id log).length = a.last.size ∧
      sha256 (chunks a.last.id log) = a.last.digest ∧ image (chunks a.last.id log))
    (hstate : is_open b.last.state = true → b.last.state = a.last.state) :
    Recorded image b (log ++ [e]) ∧ chunks b.last.id (log ++ [e]) = chunks a.last.id log := by
  have hid : e.record.id = a.last.id := by rw [hrecord, hsame.id]
  refine h.moved ?_ hrecord ?_ hsame ?_ ?_
  · refine h.safe.concat ?_ ?_ ?_ ?_
    · intro hno
      rw [hop] at hno
      cases hno
    · intro now' armed' board' answer' hop'
      rw [hop] at hop'
      cases hop'
      rw [hid]
      exact hmade
    · intro hflashes
      obtain ⟨hcommitting, _, hne, hlength, hdigest, himage⟩ := hflashed hflashes
      obtain ⟨x, hx, hxop⟩ := h.begun hne
      obtain ⟨c, hc, hcop⟩ := h.committed hcommitting
      rw [hid]
      exact ⟨hne, ⟨a.owner, a.last.size, a.last.digest, ⟨x, hx, hxop⟩, ⟨c, hc, hcop⟩, hlength,
        hdigest⟩, himage⟩
    · intro hflashes x hx hxflashes hxid
      have hclosed := h.flashed x hx hxflashes (by rw [← hxid, hid])
      rw [(hflashed hflashes).1] at hclosed
      cases hclosed
  · intro id
    rw [Entry.accepted, hop]
  · intro hcommitting
    exact .inl ((hstate (by rw [hcommitting]; rfl)).symm.trans hcommitting)
  · intro hopen
    refine ⟨?_, ?_⟩
    · rw [← hstate hopen]
      exact hopen
    · intro hflashes
      rw [(hflashed hflashes).2.1] at hopen
      cases hopen

end Account

end Firmingo.Managed
