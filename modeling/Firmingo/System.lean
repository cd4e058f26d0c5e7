/-
Many sessions on one channel.

A device serves any number of connections, each with its own `Session`, all on
one `Channel` and one upload service. A `System` is that, with the live sessions
by their owner token; an `Op` is a call of the program or a change of the backend
or of the upload service between calls. Every list of operations is a run, so
"any interleaving" is "every run".

`run_invariant` is the rule every whole-run result below uses: what one session's
actions keep, what the actions of the others keep and what a new session starts
with.
-/
import Firmingo.RefinePoll

set_option autoImplicit false

open Octets

namespace Firmingo

open Protocol Machine

variable {β υ : Type}

/-- The live sessions, by owner token, and what they share. -/
structure System (β υ : Type) where
  sessions : UInt32 → Option Session
  channel : Channel β
  upload : υ

/-- What can happen. -/
inductive Op (β υ : Type)
  /-- A session is constructed, with or without the upload service. -/
  | construct (owner now : UInt32) (identity : Identity) (has_upload : Bool)
  | poll (owner : UInt32) (input : PollInput)
  | close (owner : UInt32)
  /-- The session's destructor runs, which calls `close`. -/
  | destroy (owner : UInt32)
  /-- The backend or the upload service changes between two calls. -/
  | backend (b : β)
  | upload (u : υ)

namespace System

/-- No session yet. -/
def initial (b : β) (u : υ) : System β υ := ⟨fun _ => none, { backend := b }, u⟩

variable [StreamBackend β] [UploadService υ]

/-- A session of the system, with what it refers to. -/
def ctx (sys : System β υ) (s : Session) : Ctx β υ := ⟨s, sys.channel, sys.upload⟩

/-- Write back what a method left. -/
def put (sys : System β υ) (t : UInt32) (c : Ctx β υ) : System β υ :=
  { sessions := Function.update sys.sessions t (some c.session)
    channel := c.channel
    upload := c.upload }

/-- Run a session's method in place. -/
def on (sys : System β υ) (t : UInt32) (method : Ctx β υ → Ctx β υ) : System β υ :=
  match sys.sessions t with
  | none => sys
  | some s => sys.put t (method (sys.ctx s))

/-- A session leaves. -/
def remove (sys : System β υ) (t : UInt32) : System β υ :=
  { sys with sessions := Function.update sys.sessions t none }

/-- A session arrives. -/
def enter (sys : System β υ) (s : Session) : System β υ :=
  { sys with
    sessions := Function.update sys.sessions s.owner (some s)
    channel := sys.channel.record (.created s.owner) }

/-- One operation. Tokens are nonzero, and no two live sessions have the same. -/
def step (sys : System β υ) : Op β υ → System β υ
  | .construct owner now identity has_upload =>
    if owner = 0 || (sys.sessions owner).isSome then sys
    else sys.enter (Session.construct identity owner now
      (if has_upload then some (UploadService.target υ) else none))
  | .poll owner input => sys.on owner (·.poll input)
  | .close owner => sys.on owner Ctx.close
  | .destroy owner => (sys.on owner Ctx.close).remove owner
  | .backend b => { sys with channel := { sys.channel with backend := b } }
  | .upload u => { sys with upload := u }

/-- A run from a device with no session. -/
def after (b : β) (u : υ) (ops : List (Op β υ)) : System β υ := Runs.run step (initial b u) ops

/-! ## Concrete runs -/

/-- A poll whose transport takes all output and offers the given bytes. -/
def offering (bytes : List Byte) : PollInput where
  now := 0
  connected := true
  write := List.length
  read capacity := bytes.take capacity
  memory := none

/-- Two polls of session `t` that deliver a frame of at most 256 payload bytes. -/
def deliver (t : UInt32) (f : Frame) : List (Op β υ) :=
  [.poll t (offering ((wire f).take header_size)), .poll t (offering f.payload)]

/-- An identity the constructor admits. -/
def sample_identity : Identity :=
  ⟨ascii "00112233445566aa", ascii "0123456789abcdef", ascii "board", ascii "1.0"⟩

/-- A session with token 1 that says hello and opens the channel. -/
def opening_run : List (Op β υ) :=
  .construct 1 0 sample_identity false ::
    deliver 1 ⟨.request, 1, ascii "\x7b\"op\":\"hello\"\x7d"⟩ ++
    deliver 1 ⟨.request, 2, ascii "\x7b\"op\":\"serial.open\",\"channel_id\":1\x7d"⟩

/-! ## The invariant of the system -/

/-- Every live session and the channel are in a state the machine allows, and the
channel's owner is alive. -/
structure Ok (sys : System β υ) : Prop where
  token : ∀ {t s}, sys.sessions t = some s → s.owner = t
  inv : ∀ {t s}, sys.sessions t = some s → Inv ⟨s.party, sys.channel.shared⟩
  held : ∀ {t}, sys.channel.stream.owner = t → t ≠ 0 → ∃ s, sys.sessions t = some s
  to_peer_le : sys.channel.shared.to_peer.length ≤ Stream.capacity

variable {t : UInt32}

/-- Looking up a session in an updated table. -/
theorem update_eq_some {f : UInt32 → Option Session} {u : UInt32} {x v : Session}
    (h : Function.update f t (some x) u = some v) : u = t ∧ v = x ∨ u ≠ t ∧ f u = some v := by
  by_cases hu : u = t
  · subst hu
    rw [Function.update_self] at h
    exact .inl ⟨rfl, (Option.some.inj h).symm⟩
  · rw [Function.update_of_ne hu] at h
    exact .inr ⟨hu, h⟩

theorem update_none_eq_some {f : UInt32 → Option Session} {u : UInt32} {v : Session}
    (h : Function.update f t none u = some v) : u ≠ t ∧ f u = some v := by
  by_cases hu : u = t
  · subst hu
    rw [Function.update_self] at h
    cases h
  · rw [Function.update_of_ne hu] at h
    exact ⟨hu, h⟩

/-- Another session's actions keep a session's invariant. -/
theorem inv_of_seen {p : Party} {s s' : Shared} {more : List Event} (h : Seen t s s' more)
    (hne : p.token ≠ t) (hi : Inv ⟨p, s⟩) (hpeer : s'.to_peer.length ≤ Stream.capacity) : Inv ⟨p, s'⟩ :=
  ⟨hi.wf, hi.token, hi.owned_iff.trans (h.owner _ hi.token hne).symm, hi.terminal, hi.offset, hpeer⟩

variable {sys : System β υ}

omit [StreamBackend β] [UploadService υ] in
/-- A session's run of actions keeps the system's invariant. -/
theorem Ok.put (h : Ok sys) {s : Session} (hs : sys.sessions t = some s) {c : Ctx β υ}
    (hacts : Acts (sys.ctx s).config c.config) : Ok (sys.put t c) := by
  have hi := h.inv hs
  have hi' : Inv c.config := Acts.inv hacts hi
  obtain ⟨more, hseen⟩ := Acts.seen hacts hi
  have hst : s.owner = t := h.token hs
  have htoken : c.session.owner = s.owner := Acts.token_eq hacts
  refine ⟨?_, ?_, ?_, hi'.to_peer_le⟩
  · intro u v hv
    rcases update_eq_some hv with ⟨rfl, rfl⟩ | ⟨-, hv⟩
    · rw [htoken, hst]
    · exact h.token hv
  · intro u v hv
    rcases update_eq_some hv with ⟨rfl, rfl⟩ | ⟨hu, hv⟩
    · exact hi'
    · have hne : v.owner ≠ s.owner := by rw [h.token hv, hst]; exact hu
      exact inv_of_seen hseen hne (h.inv hv) hi'.to_peer_le
  · intro u hu h0
    by_cases hut : u = t
    · exact ⟨c.session, by rw [hut]; exact Function.update_self ..⟩
    · obtain ⟨v, hv⟩ := h.held ((hseen.owner u h0 (fun he => hut (he.trans hst))).mp hu) h0
      exact ⟨v, by rw [← hv]; exact Function.update_of_ne hut ..⟩

omit [StreamBackend β] [UploadService υ] in
/-- A session that does not own the channel may leave. -/
theorem Ok.remove (h : Ok sys) (hfree : sys.channel.stream.owner ≠ t) : Ok (sys.remove t) := by
  refine ⟨fun hv => h.token (update_none_eq_some hv).2, fun hv => h.inv (update_none_eq_some hv).2,
    fun {u} hu h0 => ?_, h.to_peer_le⟩
  obtain ⟨v, hv⟩ := h.held hu h0
  have hne : u ≠ t := by rintro rfl; exact hfree hu
  exact ⟨v, by rw [← hv]; exact Function.update_of_ne hne ..⟩

/-- A new session's state is one the machine allows. -/
theorem inv_construct (identity : Identity) (h0 : t ≠ 0) (now : UInt32) (target : Option UploadTarget)
    {s : Shared} (hfree : s.owner ≠ t) (hpeer : s.to_peer.length ≤ Stream.capacity) :
    Inv ⟨(Session.construct identity t now target).party, s⟩ where
  wf := Decoder.wf_initial
  token := h0
  owned_iff := ⟨fun h => absurd h Bool.false_ne_true, fun h => absurd h hfree⟩
  terminal := fun _ => ⟨rfl, rfl⟩
  offset := .inl rfl
  to_peer_le := hpeer

/-! ## Whole runs -/

/-- A rule about runs: `P` is a property of each live session with the channel, `G`
one of the channel. -/
structure Rule (P : Config → Prop) (G : Shared → Prop) : Prop where
  /-- Nothing has happened yet. -/
  start : G ⟨0, [], [], 0, 0, []⟩
  /-- What a session does keeps both. -/
  act : ∀ {k k'}, Act k k' → Inv k → P k → G k.shared → P k' ∧ G k'.shared
  /-- What a session does keeps the other sessions' properties. -/
  other : ∀ {p : Party} {s s' : Shared} {t : UInt32} {more : List Event}, Seen t s s' more →
    p.token ≠ t → Inv ⟨p, s⟩ → P ⟨p, s⟩ → P ⟨p, s'⟩
  /-- A new session. -/
  fresh : ∀ {p : Party} {s : Shared}, p.decoder = {} → p.output = [] → p.data_offset = 0 →
    p.owned = false → P ⟨p, s.log [.created p.token]⟩
  created : ∀ {s : Shared} (t : UInt32), G s → G (s.log [.created t])

/-- What a rule proves of a system. -/
structure Holds (P : Config → Prop) (G : Shared → Prop) (sys : System β υ) : Prop where
  ok : Ok sys
  each : ∀ {t s}, sys.sessions t = some s → P ⟨s.party, sys.channel.shared⟩
  channel : G sys.channel.shared

section Step

variable {P : Config → Prop} {G : Shared → Prop} (rule : Rule P G)
include rule

/-- A run of actions keeps what each action keeps. -/
theorem Rule.acts {k k' : Config} (h : Acts k k') (hi : Inv k) (hp : P k) (hg : G k.shared) :
    P k' ∧ G k'.shared := by
  induction h with
  | refl => exact ⟨hp, hg⟩
  | tail hab hact ih => exact rule.act hact (Acts.inv hab hi) ih.1 ih.2

omit [StreamBackend β] [UploadService υ] in
/-- A method that is a run of actions keeps what the rule proves. -/
theorem Rule.on (h : Holds P G sys) (t : UInt32) {m : Ctx β υ → Ctx β υ}
    (hm : ∀ {c : Ctx β υ}, Inv c.config → Acts c.config (m c).config) : Holds P G (sys.on t m) := by
  unfold System.on
  split
  · exact h
  rename_i s hs
  have hi := h.ok.inv hs
  have hacts := hm (c := sys.ctx s) hi
  obtain ⟨hp', hg'⟩ := rule.acts hacts hi (h.each hs) h.channel
  obtain ⟨more, hseen⟩ := Acts.seen hacts hi
  refine ⟨h.ok.put hs hacts, ?_, hg'⟩
  intro u v hv
  rcases update_eq_some hv with ⟨rfl, rfl⟩ | ⟨hu, hv⟩
  · exact hp'
  · have hne : v.owner ≠ s.owner := by rw [h.ok.token hv, h.ok.token hs]; exact hu
    exact rule.other hseen hne (h.ok.inv hv) (h.each hv)

/-- After `close`, the session does not own the channel. -/
theorem on_close_free (h : Holds P G sys) (h0 : t ≠ 0) :
    (sys.on t Ctx.close).channel.stream.owner ≠ t := by
  have h' := rule.on h t (m := Ctx.close) Ctx.close_acts
  intro howner
  obtain ⟨s, hs⟩ := h'.ok.held howner h0
  have howned : s.owned = true := (h'.ok.inv hs).owned_iff.mpr (by
    change (sys.on t Ctx.close).channel.stream.owner = s.owner
    rw [howner, h'.ok.token hs])
  unfold System.on at hs
  split at hs
  · rename_i hnone
    rw [hnone] at hs
    cases hs
  · rcases update_eq_some hs with ⟨-, rfl⟩ | ⟨hne, -⟩
    · cases howned
    · exact hne rfl

/-- A session that closes and leaves. -/
theorem Rule.destroy (h : Holds P G sys) (t : UInt32) : Holds P G ((sys.on t Ctx.close).remove t) := by
  have h' := rule.on h t (m := Ctx.close) Ctx.close_acts
  by_cases h0 : t = 0
  · -- no session has the token zero
    have hnone : sys.sessions t = none := by
      by_contra hne
      obtain ⟨s, hs⟩ := Option.ne_none_iff_exists'.mp hne
      exact (h.ok.inv hs).token (by rw [← h0]; exact h.ok.token hs)
    have hsame : (sys.on t Ctx.close).remove t = sys := by
      simp only [System.on, hnone, System.remove]
      rw [← hnone, Function.update_eq_self]
    rw [hsame]
    exact h
  · exact ⟨h'.ok.remove (on_close_free rule h h0), fun hv => h'.each (update_none_eq_some hv).2,
      h'.channel⟩

omit [StreamBackend β] [UploadService υ] in
/-- A session that is constructed with a token no live session has. -/
theorem Rule.enter (h : Holds P G sys) (h0 : t ≠ 0) (hnone : sys.sessions t = none) {identity : Identity}
    {now : UInt32} {target : Option UploadTarget} :
    Holds P G (sys.enter (Session.construct identity t now target)) := by
  have hseen : Seen t sys.channel.shared (sys.channel.record (.created t)).shared [.created t] :=
    Seen.of_log sys.channel.shared (by simp [by_token, sessional])
  have hfree : sys.channel.stream.owner ≠ t := by
    intro howner
    obtain ⟨s, hs⟩ := h.ok.held howner h0
    rw [hnone] at hs
    cases hs
  refine ⟨⟨?_, ?_, ?_, h.ok.to_peer_le⟩, ?_, rule.created t h.channel⟩
  · intro u v hv
    rcases update_eq_some hv with ⟨rfl, rfl⟩ | ⟨-, hv⟩
    · rfl
    · exact h.ok.token hv
  · intro u v hv
    rcases update_eq_some hv with ⟨rfl, rfl⟩ | ⟨hu, hv⟩
    · exact inv_construct identity h0 now target hfree h.ok.to_peer_le
    · have hne : v.owner ≠ t := by rw [h.ok.token hv]; exact hu
      exact inv_of_seen hseen hne (h.ok.inv hv) h.ok.to_peer_le
  · intro u hu hu0
    obtain ⟨v, hv⟩ := h.ok.held hu hu0
    have hne : u ≠ t := by rintro rfl; exact hfree hu
    exact ⟨v, by rw [← hv]; exact Function.update_of_ne hne ..⟩
  · intro u v hv
    rcases update_eq_some hv with ⟨rfl, rfl⟩ | ⟨hu, hv⟩
    · exact rule.fresh (p := (Session.construct identity u now target).party)
        (s := sys.channel.shared) rfl rfl rfl rfl
    · have hne : v.owner ≠ t := by rw [h.ok.token hv]; exact hu
      exact rule.other hseen hne (h.ok.inv hv) (h.each hv)

/-- **Every operation keeps what the rule proves.** -/
theorem Rule.step (h : Holds P G sys) (o : Op β υ) : Holds P G (sys.step o) := by
  cases o with
  | construct owner now identity has_upload =>
    simp only [System.step]
    split
    · exact h
    rename_i hnew
    simp only [Bool.or_eq_true, decide_eq_true_eq, not_or, Bool.not_eq_true,
      Option.isSome_eq_false_iff, Option.isNone_iff_eq_none] at hnew
    exact rule.enter h hnew.1 hnew.2
  | poll owner input => exact rule.on h owner (fun hi => Ctx.poll_acts hi input)
  | close owner => exact rule.on h owner Ctx.close_acts
  | destroy owner => exact rule.destroy h owner
  | backend b => exact ⟨⟨h.ok.token, h.ok.inv, h.ok.held, h.ok.to_peer_le⟩, h.each, h.channel⟩
  | upload u => exact ⟨⟨h.ok.token, h.ok.inv, h.ok.held, h.ok.to_peer_le⟩, h.each, h.channel⟩

/-- **Every run keeps what the rule proves.** -/
theorem Rule.after (b : β) (u : υ) (ops : List (Op β υ)) : Holds P G (System.after b u ops) := by
  refine Runs.run_invariant (P := Holds P G) System.step ?_ (fun _ o h => rule.step h o) ops
  have hnone : ∀ {t s}, ¬ (initial b u).sessions t = some s := by
    intro t s h
    cases h
  exact ⟨⟨fun h => absurd h hnone, fun h => absurd h hnone, fun h h0 => absurd h.symm h0,
    Nat.zero_le _⟩, fun h => absurd h hnone, rule.start⟩

end Step

end System

end Firmingo
