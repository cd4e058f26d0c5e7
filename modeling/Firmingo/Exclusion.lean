/-
Console and upload exclude each other.

Any number of sessions share one channel and one upload service, and the service makes
moves of its own: it is polled, its arm input changes level, core 1 runs. The channel is
acquired only while the service does not block the console, and the calls that may block
it, `begin` and `commit`, are made only while nobody owns the channel. Nothing else ever
turns the block on; that is all a service has to promise (`Quiet`), and both do.
-/
import Firmingo.Services

set_option autoImplicit false

open Octets

namespace Firmingo

open Protocol Machine

section Shared

variable {β υ ο : Type}

/-- What can happen around one channel and one service: calls on sessions, all of which
have the service, changes of the backend, and moves of the service by itself. -/
inductive SharedOp (β ο : Type)
  | construct (owner now : UInt32) (identity : Identity)
  | poll (owner : UInt32) (input : PollInput)
  | close (owner : UInt32)
  | destroy (owner : UInt32)
  | backend (b : β)
  | service (move : ο)

variable [StreamBackend β] [UploadService υ] (serve : υ → ο → υ)

/-- The operation of the system, where the service is in the given state. -/
def SharedOp.op (u : υ) : SharedOp β ο → Op β υ
  | .construct owner now identity => .construct owner now identity true
  | .poll owner input => .poll owner input
  | .close owner => .close owner
  | .destroy owner => .destroy owner
  | .backend b => .backend b
  | .service move => .upload (serve u move)

namespace System

def shared_step (sys : System β υ) (o : SharedOp β ο) : System β υ := sys.step (o.op serve sys.upload)

def shared_after (b : β) (u : υ) (ops : List (SharedOp β ο)) : System β υ :=
  Runs.run (shared_step serve) (initial b u) ops

end System

/-- A service that does not block the console goes on not to block it, whatever is called or
happens, except by `begin` and `commit`. -/
structure Quiet : Prop where
  call : ∀ (u : υ) (t : UInt32) (call : UploadCall), call.exclusive = false →
    UploadService.blocks_console u = false → UploadService.blocks_console (call.run u t).2 = false
  disconnect : ∀ (u : υ) (t : UInt32), UploadService.blocks_console u = false →
    UploadService.blocks_console (UploadService.disconnect u t) = false
  serve : ∀ (u : υ) (move : ο), UploadService.blocks_console u = false →
    UploadService.blocks_console (serve u move) = false

/-- The console has an owner, or the service blocks it, or neither. -/
def World.Exclusive (w : World β υ) : Prop :=
  w.owner = 0 ∨ UploadService.blocks_console w.upload = false

variable {serve}

/-- No effect of a session leaves an owner of the channel beside an open transaction. -/
theorem exclusive_rule (hquiet : Quiet serve) : WorldRule (· = true) (World.Exclusive (β := β) (υ := υ)) where
  anyone := fun _ h => h
  effect := by
    intro t attached w w' _ hattached heffect h
    cases heffect with
    | note e own named => exact h
    | fetch capacity owns => exact h
    | store data owns => exact h
    | prepare free => exact h
    | configure value => exact h
    | report => exact h
    | acquire token free unblocked => exact .inr (unblocked hattached)
    | release token owns => exact .inl rfl
    | call call has free =>
      by_cases hex : call.exclusive = true
      · exact .inl (free hex)
      · rcases h with h | h
        · exact .inl h
        · exact .inr (hquiet.call w.upload t call (by simpa using hex) h)
    | disconnect has first =>
      rcases h with h | h
      · exact .inl h
      · exact .inr (hquiet.disconnect w.upload t h)
    | leave told => exact h

/-- Nobody's data is queued while nobody owns the channel. -/
theorem vacant_rule : System.Rule (fun _ => True)
    (fun s => s.owner = 0 → s.to_backend = [] ∧ s.to_peer = []) where
  start := fun _ => ⟨rfl, rfl⟩
  act := by
    intro k k' hact hi _ h
    have howned : k.party.owned = true → k.shared.owner ≠ 0 := by
      intro howned h0
      exact hi.token ((hi.owned_iff.mp howned).symm.trans h0)
    refine ⟨trivial, ?_⟩
    cases hact with
    | feed p s bytes running incomplete => exact h
    | send p s n running fits => exact h
    | answer p s payload limit running ready control idle limit_ge limit_le fits buffer => exact h
    | acquire p s running token free ready control => exact fun _ => ⟨rfl, rfl⟩
    | release p s owned => exact fun _ => ⟨rfl, rfl⟩
    | stop p s result limit unowned limit_ge limit_le terminal => exact h
    | pull p s count running owned empty ready serial count_eq => exact fun h0 => absurd h0 (howned owned)
    | push p s n running owned fits => exact fun h0 => absurd h0 (howned owned)
    | fetch p s bytes running owned empty fits => exact fun h0 => absurd h0 (howned owned)
    | emit p s running owned some_data idle => exact fun h0 => absurd h0 (howned owned)
  other := fun _ _ _ _ => trivial
  fresh := fun _ _ _ _ => trivial
  created := fun _ h => h

namespace System

/-- Neither does what happens between the calls of sessions. -/
theorem shared_step_shares (hquiet : Quiet serve) {sys : System β υ}
    (h : Shares (· = true) World.Exclusive sys) (o : SharedOp β ο) :
    Shares (· = true) World.Exclusive (sys.shared_step serve o) := by
  have hrule := exclusive_rule (β := β) hquiet
  cases o with
  | construct owner now identity => exact h.construct owner now identity true rfl h.world
  | poll owner input => exact h.poll hrule owner input
  | close owner => exact h.close hrule owner
  | destroy owner => exact h.destroy hrule owner
  | backend b => exact ⟨h.ok.step (.backend b), h.known, h.world⟩
  | service move =>
    refine ⟨h.ok.step (.upload (serve sys.upload move)), h.known, ?_⟩
    rcases h.world with hfree | hopen
    · exact .inl hfree
    · exact .inr (hquiet.serve sys.upload move hopen)

/-- What the run of any such system keeps. -/
theorem shared_after_exclusive (hquiet : Quiet serve) (b : β) (u : υ) (ops : List (SharedOp β ο)) :
    Shares (· = true) World.Exclusive (shared_after serve b u ops) ∧
      Holds (fun _ => True) (fun s => s.owner = 0 → s.to_backend = [] ∧ s.to_peer = [])
        (shared_after serve b u ops) := by
  refine Runs.run_invariant (P := fun sys => Shares (· = true) World.Exclusive sys ∧
    Holds (fun _ => True) (fun s => s.owner = 0 → s.to_backend = [] ∧ s.to_peer = []) sys)
    (shared_step serve) ?_ ?_ ops
  · have hstart : Holds _ _ (initial b u) := vacant_rule.after b u []
    have hnone : ∀ {t s}, ¬ (initial b u).sessions t = some s := by
      intro t s hs
      cases hs
    exact ⟨⟨hstart.ok, fun hs => absurd hs hnone, Or.inl rfl⟩, hstart⟩
  · rintro sys o ⟨hshares, hholds⟩
    exact ⟨shared_step_shares hquiet hshares o, vacant_rule.step hholds _⟩

end System

end Shared

/-! ## The two services -/

/-- A service is quiet if only an open transaction lets a disconnect change it, or a call that
neither begins nor commits. -/
theorem quiet_of_changes {υ ο : Type} [UploadService υ] {serve : υ → ο → υ}
    (hcall : ∀ (u : υ) (t : UInt32) (call : UploadCall), (call.run u t).2 = u ∨
      (call.exclusive = false → UploadService.blocks_console u = true))
    (hdisconnect : ∀ (u : υ) (t : UInt32), UploadService.disconnect u t = u ∨
      UploadService.blocks_console u = true)
    (hserve : ∀ (u : υ) (move : ο), UploadService.blocks_console u = false →
      UploadService.blocks_console (serve u move) = false) : Quiet serve := by
  refine ⟨fun u t call hexclusive h => ?_, fun u t h => ?_, hserve⟩
  · rcases hcall u t call with hsame | hblocks
    · rw [hsame]
      exact h
    · rw [hblocks hexclusive] at h
      cases h
  · rcases hdisconnect u t with hsame | hblocks
    · rw [hsame]
      exact h
    · rw [hblocks] at h
      cases h

namespace Managed

/-- An open record that passed a check of the service. -/
theorem Checked.blocks {last : UploadStatus} {holder owner : UInt32} {id : ℕ} {expected : UploadState}
    (h : Checked last holder owner id expected) (hopen : is_open expected = true) :
    (decide (last.id ≠ 0) && is_open last.state) = true := by
  rw [h.state, hopen, Bool.and_true, decide_eq_true_eq, ← h.id_eq]
  exact h.id_ne

namespace FmgoUpload

/-- What happens to the service between the calls of sessions. -/
inductive Move
  | arm (armed : Bool)
  | poll (now : UInt32) (board : Board) (generation_returned : Bool)

def serve (u : FmgoUpload) : Move → FmgoUpload
  | .arm armed => { u with armed := armed }
  | .poll now board generation_returned => (u.poll now board generation_returned).1

theorem Aborted.blocks {u u' : FmgoUpload} {owner : UInt32} {error : UploadError}
    (h : Aborted u owner u' error) : u.blocks_console = true := by
  rcases h.state with hs | hs <;> simp [blocks_console, h.id_ne, hs, is_open]

theorem poll_quiet {u : FmgoUpload} (h : u.blocks_console = false) (now : UInt32) (board : Board)
    (generation_returned : Bool) : (u.poll now board generation_returned).1.blocks_console = false := by
  unfold poll
  split
  · exact h
  next hid =>
  split
  · simp [blocks_console, is_open]
  split
  · exact h
  next hstate =>
  -- a commit is under way, so the console was blocked
  rw [not_not] at hstate
  simp [blocks_console, hid, hstate, is_open] at h

/-- A call that changes something leaves its caller as the owner, and found an open transaction,
unless it began or committed one. -/
theorem call_changes (u : FmgoUpload) (t : UInt32) (call : UploadCall) :
    (call.run u t).2 = u ∨
      (call.run u t).2.owner = t ∧ (call.exclusive = false → u.blocks_console = true) := by
  cases call with
  | begin size digest =>
    rcases begin_cases u t size digest with ⟨-, hsame⟩ | hb
    · exact .inl hsame
    · exact .inr ⟨congrArg owner hb.after, nofun⟩
  | chunk id offset data =>
    rcases chunk_cases u t id offset data with ⟨-, hsame⟩ | hc
    · exact .inl hsame
    · exact .inr ⟨(congrArg owner hc.after).trans hc.checked.owner_eq.symm, fun _ => hc.checked.blocks rfl⟩
  | finish id =>
    rcases finish_cases u t id with ⟨-, hsame⟩ | hs | hf
    · exact .inl hsame
    · obtain ⟨stage, -, hafter⟩ := hs.after
      exact .inr ⟨(congrArg owner hafter).trans hs.checked.owner_eq.symm, fun _ => hs.checked.blocks rfl⟩
    · exact .inr ⟨(congrArg owner hf.after).trans hf.checked.owner_eq.symm, fun _ => hf.checked.blocks rfl⟩
  | commit id =>
    rcases commit_cases u t id with ⟨-, hsame⟩ | ⟨hchecked, -, -, hafter⟩
    · exact .inl hsame
    · exact .inr ⟨(congrArg owner hafter).trans hchecked.owner_eq.symm, nofun⟩
  | abort id =>
    rcases abort_cases u t id with ⟨-, hsame⟩ | ⟨-, -, -, ha⟩
    · exact .inl hsame
    · exact .inr ⟨(congrArg owner ha.after).trans ha.owner_eq.symm, fun _ => ha.blocks⟩

theorem quiet : Quiet serve := by
  refine quiet_of_changes (fun u t call => (call_changes u t call).imp_right And.right)
    (fun u t => (disconnect_cases u t).imp_right Aborted.blocks) fun u move h => ?_
  cases move with
  | arm armed => exact h
  | poll now board generation_returned => exact poll_quiet h now board generation_returned

end FmgoUpload

namespace Stateful.Upload

/-- What happens to the service between the calls of sessions; core 1 and the boot may leave
any runtime. -/
inductive Move
  | arm (armed : Bool)
  | runtime (runtime : Runtime)
  | poll (now : UInt32) (board : Board) (overlaps : Bool)

def serve (u : Upload) : Move → Upload
  | .arm armed => { u with armed := armed }
  | .runtime runtime => { u with runtime := runtime }
  | .poll now board overlaps => (u.poll now board overlaps).1

theorem Aborted.blocks {u u' : Upload} {owner : UInt32} {error : UploadError}
    (h : Aborted u owner u' error) : u.blocks_console = true := by
  rcases h.state with hs | hs <;> simp [blocks_console, h.id_ne, hs, is_open]

/-- The FMS2 service opens no transaction by itself either. -/
theorem poll_quiet {u : Upload} (h : u.blocks_console = false) (now : UInt32) (board : Board)
    (overlaps : Bool) : (u.poll now board overlaps).1.blocks_console = false := by
  unfold poll
  simp only
  split
  · exact h
  next hid =>
  split
  · simp [blocks_console, is_open]
  split
  · next hexpired =>
    -- only an open transaction grows old
    have hblocks : u.blocks_console = true := by
      simp only [expired, Bool.and_eq_true] at hexpired
      exact hexpired.1.1
    rw [h] at hblocks
    cases hblocks
  split
  · exact h
  next hstate =>
  rw [not_not] at hstate
  simp [blocks_console, hid, hstate, is_open] at h

/-- A call that changes something leaves its caller as the owner, and found an open transaction,
unless it began or committed one. -/
theorem call_changes (u : Upload) (t : UInt32) (call : UploadCall) :
    (call.run u t).2 = u ∨
      (call.run u t).2.owner = t ∧ (call.exclusive = false → u.blocks_console = true) := by
  cases call with
  | begin size digest =>
    rcases begin_cases u t size digest with ⟨-, hsame⟩ | hb
    · exact .inl hsame
    · exact .inr ⟨congrArg owner hb.after, nofun⟩
  | chunk id offset data =>
    rcases chunk_cases u t id offset data with ⟨-, hsame⟩ | hc
    · exact .inl hsame
    · exact .inr ⟨(congrArg owner hc.after).trans hc.checked.owner_eq.symm, fun _ => hc.checked.blocks rfl⟩
  | finish id =>
    rcases finish_cases u t id with ⟨-, hsame⟩ | ⟨hchecked, -, hafter⟩ | hf
    · exact .inl hsame
    · exact .inr ⟨(congrArg owner hafter).trans hchecked.owner_eq.symm, fun _ => hchecked.blocks rfl⟩
    · exact .inr ⟨(congrArg owner hf.after).trans hf.checked.owner_eq.symm, fun _ => hf.checked.blocks rfl⟩
  | commit id =>
    rcases commit_cases u t id with ⟨-, hsame⟩ | ⟨hchecked, -, -, hafter⟩
    · exact .inl hsame
    · exact .inr ⟨(congrArg owner hafter).trans hchecked.owner_eq.symm, nofun⟩
  | abort id =>
    rcases abort_cases u t id with ⟨-, hsame⟩ | ⟨-, -, -, ha⟩
    · exact .inl hsame
    · exact .inr ⟨(congrArg owner ha.after).trans ha.owner_eq.symm, fun _ => ha.blocks⟩

theorem quiet : Quiet serve := by
  refine quiet_of_changes (fun u t call => (call_changes u t call).imp_right And.right)
    (fun u t => (disconnect_cases u t).imp_right Aborted.blocks) fun u move h => ?_
  cases move with
  | arm armed => exact h
  | runtime runtime => exact h
  | poll now board overlaps => exact poll_quiet h now board overlaps

end Stateful.Upload

end Managed

/-- No tenure and no data of one while the service has an open transaction. -/
structure System.Exclusive {β υ : Type} [StreamBackend β] [UploadService υ] (sys : System β υ) : Prop where
  never_both : ¬ (sys.channel.owner ≠ 0 ∧ UploadService.blocks_console sys.upload = true)
  no_tenure : UploadService.blocks_console sys.upload = true →
    (∀ t s, sys.sessions t = some s → s.owned = false) ∧
      sys.channel.stream.to_backend.bytes = [] ∧ sys.channel.stream.to_peer.bytes = []

/-- A session that owns the channel is the stream's owner, so the two exclude each other. -/
theorem System.exclusive_of_shares {β υ : Type} [StreamBackend β] [UploadService υ] {sys : System β υ}
    (h : Shares (· = true) World.Exclusive sys)
    (hholds : Holds (fun _ => True) (fun s => s.owner = 0 → s.to_backend = [] ∧ s.to_peer = []) sys) :
    sys.Exclusive := by
  have hfree : UploadService.blocks_console sys.upload = true → sys.channel.stream.owner = 0 := by
    intro hblocks
    rcases h.world with hfree | hopen
    · exact hfree
    · exact absurd (hblocks.symm.trans hopen) (by decide)
  refine ⟨fun hboth => hboth.1 (hfree hboth.2), fun hblocks => ⟨?_, hholds.channel (hfree hblocks)⟩⟩
  intro t s hs
  cases howned : s.owned with
  | false => rfl
  | true =>
    have howner : sys.channel.stream.owner = s.owner := (h.ok.inv hs).owned_iff.mp howned
    exact absurd (howner.symm.trans (hfree hblocks)) (h.ok.inv hs).token

/-- **Console and upload exclude each other**, for both services and every run. -/
theorem console_excludes_upload {β : Type} [StreamBackend β] (b : β) :
    (∀ (api : ℕ) (ops : List (SharedOp β Managed.FmgoUpload.Move)),
      (System.shared_after Managed.FmgoUpload.serve b { api := api } ops).Exclusive) ∧
    ∀ (contract resident : Managed.Stateful.Contract) (arena : Managed.Stateful.Arena)
      (ops : List (SharedOp β Managed.Stateful.Upload.Move)),
      (System.shared_after Managed.Stateful.Upload.serve b
        { contract := contract
          runtime := { contract := resident, generation := { arena := arena } } } ops).Exclusive := by
  constructor
  · intro api ops
    have h := System.shared_after_exclusive Managed.FmgoUpload.quiet b { api := api } ops
    exact System.exclusive_of_shares h.1 h.2
  · intro contract resident arena ops
    have h := System.shared_after_exclusive Managed.Stateful.Upload.quiet b
      { contract := contract, runtime := { contract := resident, generation := { arena := arena } } } ops
    exact System.exclusive_of_shares h.1 h.2

end Firmingo
