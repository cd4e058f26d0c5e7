/-
One client's bytes never reach the next.

A `Device` is a system of sessions on an application endpoint, whose sketch calls
`write_to_host` and `read_from_host` between the calls of the sessions. Its `trace`
puts the events of the channel and those two calls in one order, so that a tenure is a
stretch of the trace.

The bytes pass four queues. The machine accounts for the stream's two, the decoder and
the output (`Sounds`: what the owner's serial frames carry is what the backend
returned, and what the backend accepted is what they carried); the effects account for
the endpoint's two rings (`Linked`). Both hold after every single event, so both hold
in every stretch of every tenure.
-/
import Firmingo.Effects
import Firmingo.Endpoint
import Firmingo.Inward
import Firmingo.Outward
import Firmingo.Ownership

set_option autoImplicit false

open Octets

namespace Firmingo

open Protocol Machine

/-! ## The owner's serial frames -/

/-- Who owns the channel after a history. -/
def holder (history : List Event) : UInt32 :=
  history.foldl (fun t e => match e with
    | .opened u => u
    | .closed _ => 0
    | _ => t) 0

theorem holder_concat (history : List Event) (e : Event) :
    holder (history ++ [e]) = match e with
      | .opened u => u
      | .closed _ => 0
      | _ => holder history := by
  rw [holder, List.foldl_append]
  rfl

variable {e : Event}

theorem holder_quiet (history : List Event) (he : lifecycle e = false) :
    holder (history ++ [e]) = holder history := by
  rw [holder_concat]
  cases e <;> first | rfl | cases he

/-- What the owner's serial frames carry, against what passed the backend. -/
def Sound (history : List Event) : Prop :=
  holder history ≠ 0 →
    queued_data (holder history) history <+: returned history ∧
    accepted history <+: received_data (holder history) history

/-- Every stretch of the history is sound, and only the owner queues serial data. -/
structure Sounds (s : Shared) : Prop where
  holder_eq : holder s.history = s.owner
  sound : ∀ pre, pre <+: s.history → Sound pre
  serial : ∀ pre u f limit, pre ++ [.queued u f limit] <+: s.history → f.type = .serial →
    u = holder pre ∧ u ≠ 0
  tokens : ∀ t, .opened t ∈ s.history → t ≠ 0

variable {s : Shared}

/-- One more event. -/
theorem Sounds.concat {s' : Shared} (h : Sounds s) (hh : s'.history = s.history ++ [e])
    (hholder : holder s'.history = s'.owner) (hsound : Sound s'.history)
    (hserial : ∀ u f limit, e = .queued u f limit → f.type = .serial → u = s.owner ∧ u ≠ 0)
    (htoken : ∀ t, e = .opened t → t ≠ 0) : Sounds s' := by
  refine ⟨hholder, ?_, ?_, ?_⟩
  · intro pre hpre
    rw [hh, List.prefix_concat_iff] at hpre
    rcases hpre with rfl | hpre
    · rw [← hh]
      exact hsound
    · exact h.sound pre hpre
  · intro pre u f limit hpre hf
    rw [hh, List.prefix_concat_iff] at hpre
    rcases hpre with heq | hpre
    · obtain ⟨rfl, he⟩ := List.append_inj' heq rfl
      rw [h.holder_eq]
      exact hserial u f limit (List.singleton_inj.mp he).symm hf
    · exact h.serial pre u f limit hpre hf
  · intro t ht
    rw [hh, List.mem_append, List.mem_singleton] at ht
    rcases ht with ht | rfl
    · exact h.tokens t ht
    · exact htoken t rfl

/-- What an action adds to the history: nothing, one event that leaves the owner as
it is, or one end of a tenure. -/
theorem Machine.Act.adds {k k' : Config} (h : Act k k') (hi : Inv k) :
    (k'.shared.history = k.shared.history ∧ k'.shared.owner = k.shared.owner) ∨
    (∃ e, k'.shared.history = k.shared.history ++ [e] ∧ lifecycle e = false ∧
      k'.shared.owner = k.shared.owner ∧ k'.party.owned = k.party.owned ∧
      by_token k.party.token e = true ∧ (k.party.owned = false → sessional e = true) ∧
      ∀ u f limit, e = .queued u f limit → f.type = .serial →
        u = k.party.token ∧ k.party.owned = true) ∨
    (k'.shared.history = k.shared.history ++ opening k.party.token ∧ k.shared.owner = 0 ∧
      k'.shared.owner = k.party.token) ∨
    (k'.shared.history = k.shared.history ++ ending k.party.token ∧ k'.shared.owner = 0) := by
  cases h with
  | feed p s bytes running incomplete =>
    by_cases hready : (p.decoder.feed bytes).state = .ready
    · rw [if_pos hready]
      refine .inr (.inl ⟨_, rfl, rfl, rfl, rfl, by simp [by_token], fun _ => rfl, ?_⟩)
      intro u f limit he
      cases he
    · rw [if_neg hready]
      exact .inl ⟨by simp [Shared.log], rfl⟩
  | send p s n running fits =>
    refine .inr (.inl ⟨_, rfl, rfl, rfl, rfl, by simp [by_token], fun _ => rfl, ?_⟩)
    intro u f limit he
    cases he
  | answer p s payload limit running ready control idle limit_ge limit_le fits buffer =>
    refine .inr (.inl ⟨_, rfl, rfl, rfl, rfl, by simp [by_token], fun _ => rfl, ?_⟩)
    intro u f limit he hf
    cases he
    cases hf
  | acquire p s running token free ready control => exact .inr (.inr (.inl ⟨rfl, free, rfl⟩))
  | release p s owned => exact .inr (.inr (.inr ⟨rfl, rfl⟩))
  | stop p s result limit unowned limit_ge limit_le terminal => exact .inl ⟨rfl, rfl⟩
  | pull p s count running owned empty ready serial count_eq => exact .inl ⟨rfl, rfl⟩
  | push p s n running owned fits =>
    refine .inr (.inl ⟨_, rfl, rfl, rfl, rfl, rfl, fun hno => Bool.noConfusion (owned.symm.trans hno), ?_⟩)
    intro u f limit he
    cases he
  | fetch p s bytes running owned empty fits =>
    refine .inr (.inl ⟨_, rfl, rfl, rfl, rfl, rfl, fun hno => Bool.noConfusion (owned.symm.trans hno), ?_⟩)
    intro u f limit he
    cases he
  | emit p s running owned some_data idle =>
    refine .inr (.inl ⟨_, rfl, rfl, rfl, rfl, by simp [by_token], fun _ => rfl, ?_⟩)
    intro u f limit he _
    cases he
    exact ⟨rfl, owned⟩

/-- The accounts of the owner are sound. -/
theorem sound_of_accounts {k : Config} (hin : Inward k) (hout : Outward k)
    (hholder : holder k.shared.history = k.party.token) (howned : k.party.owned = true) :
    Sound k.shared.history := by
  intro _
  rw [hholder]
  refine ⟨?_, ?_⟩
  · rw [← hout.bytes howned]
    exact List.prefix_append _ _
  · rw [hin.bytes howned, List.append_assoc]
    exact List.prefix_append _ _

/-- What another session does keeps the owner's accounts. -/
theorem sound_foreign {history : List Event} (h : Sound history) {t : UInt32}
    (hne : holder history ≠ t) (hlife : lifecycle e = false)
    (hnamed : by_token t e = true) (hsess : sessional e = true) : Sound (history ++ [e]) := by
  have hn : ∀ x ∈ [e], by_token t x = true := by simpa using hnamed
  have hs : ∀ x ∈ [e], sessional x = true := by simpa using hsess
  intro h0
  rw [holder_quiet _ hlife] at h0 ⊢
  rw [queued_data_foreign hne history hn hs, received_data_foreign hne history hn hs,
    accepted_sessional history hs, returned_sessional history hs]
  exact h h0

theorem sound_of_free {history : List Event} (h : holder history = 0) : Sound history :=
  fun hne => absurd h hne

/-- A session that is logged at no other's cost. -/
theorem Sounds.created (h : Sounds s) (t : UInt32) : Sounds (s.log [.created t]) := by
  refine h.concat rfl ?_ ?_ (by simp) (by simp)
  · rw [Shared.log, holder_quiet _ rfl]
    exact h.holder_eq
  · intro h0
    rw [Shared.log, holder_quiet _ rfl] at h0 ⊢
    have hsound := h.sound _ List.prefix_rfl h0
    simpa [queued_data, received_data, accepted, returned, Runs.since_concat, is_opened] using hsound

/-- A tenure starts with empty accounts. -/
theorem Sounds.opening {s' : Shared} (h : Sounds s) {t : UInt32} (ht : t ≠ 0) (hfree : s.owner = 0)
    (hh : s'.history = s.history ++ Machine.opening t) (ho : s'.owner = t) : Sounds s' := by
  have hmid : Sounds (s.log [.discard t]) := by
    have hholder : holder (s.history ++ [.discard t]) = 0 := by
      rw [holder_concat, ← hfree]
      exact h.holder_eq
    refine h.concat rfl ?_ (sound_of_free hholder) (by simp) (by simp)
    rw [Shared.log, hholder, hfree]
  have hlast : s'.history = (s.log [.discard t]).history ++ [.opened t] := by
    rw [hh, Shared.log, List.append_assoc]
    rfl
  refine hmid.concat hlast ?_ ?_ (by simp) (by rintro u hu; cases hu; exact ht)
  · rw [hlast, holder_concat, ho]
  · intro _
    rw [hh, queued_data, accepted, since_opening, since_opening]
    exact ⟨List.nil_prefix, List.nil_prefix⟩

/-- A tenure that ends leaves nobody to account to. -/
theorem Sounds.ending {s' : Shared} (h : Sounds s) {t : UInt32}
    (hh : s'.history = s.history ++ Machine.ending t) (ho : s'.owner = 0) : Sounds s' := by
  have hholder : holder (s.history ++ [.closed t]) = 0 := by rw [holder_concat]
  have hmid : Sounds ({ s with owner := 0 }.log [.closed t]) :=
    h.concat rfl hholder (sound_of_free hholder) (by simp) (by simp)
  have hlast : s'.history = (s.history ++ [.closed t]) ++ [.discard t] := by
    rw [hh, List.append_assoc]
    rfl
  have hafter : holder s'.history = 0 := by
    rw [hlast, holder_concat]
    exact hholder
  exact hmid.concat hlast (hafter.trans ho.symm) (sound_of_free hafter) (by simp) (by simp)

/-- **Every stretch of every history is sound.** -/
theorem sounds_rule : System.Rule (fun k => Inward k ∧ Outward k) Sounds where
  start := ⟨rfl, fun pre hpre => sound_of_free (by rw [List.prefix_nil.mp hpre]; rfl), by simp,
    by simp⟩
  act := by
    intro k k' hact hi hp hg
    have hin' := hp.1.act hact hi
    have hout' := hp.2.act hact hi
    refine ⟨⟨hin', hout'⟩, ?_⟩
    rcases hact.adds hi with ⟨hh, ho⟩ | ⟨e, hh, hlife, ho, howned, hnamed, hsess, hserial⟩ |
      ⟨hh, hfree, ho⟩ | ⟨hh, ho⟩
    · exact ⟨by rw [hh, ho]; exact hg.holder_eq, by rw [hh]; exact hg.sound,
        by rw [hh]; exact hg.serial, by rw [hh]; exact hg.tokens⟩
    · have hholder : holder k'.shared.history = k'.shared.owner := by
        rw [hh, holder_quiet _ hlife, ho]
        exact hg.holder_eq
      refine hg.concat hh hholder ?_ ?_ ?_
      · by_cases hown : k.party.owned = true
        · -- the owner's own event: its accounts say so
          refine sound_of_accounts hin' hout' ?_ (howned.trans hown)
          rw [hholder, ho, hi.owned_iff.mp hown, hact.token_eq]
        · have hno : holder k.shared.history ≠ k.party.token := by
            rw [hg.holder_eq]
            exact fun h => hown (hi.owned_iff.mpr h)
          rw [hh]
          exact sound_foreign (hg.sound _ List.prefix_rfl) hno hlife hnamed
            (hsess (by simpa using hown))
      · intro u f limit he hf
        obtain ⟨rfl, hown⟩ := hserial u f limit he hf
        exact ⟨(hi.owned_iff.mp hown).symm, hi.token⟩
      · rintro t rfl
        cases hlife
    · exact hg.opening hi.token hfree hh ho
    · exact hg.ending hh ho
  other := by
    intro p s s' t more hseen hne hi hp
    exact ⟨inward_rule.other hseen hne hi hp.1, outward_rule.other hseen hne hi hp.2⟩
  fresh := fun hd ho hf hn => ⟨inward_rule.fresh hd ho hf hn, outward_rule.fresh hd ho hf hn⟩
  created := fun t hg => hg.created t

/-! ## The device -/

/-- What happens on a device, in order: the events of the channel, what the sketch
wrote and what it read. -/
inductive Note
  | channel (e : Event)
  | wrote (bytes : List Byte)
  | read (bytes : List Byte)
  deriving DecidableEq, Repr

/-- The sessions, on an application endpoint, and the trace so far. -/
structure Device (υ : Type) where
  system : System ApplicationEndpoint υ
  trace : List Note

/-- What can happen to a device: the calls of its sessions, changes of the upload
service, and the two calls of the sketch. -/
inductive DeviceOp (υ : Type)
  | construct (owner now : UInt32) (identity : Identity) (has_upload : Bool)
  | poll (owner : UInt32) (input : PollInput)
  | close (owner : UInt32)
  | destroy (owner : UInt32)
  | upload (u : υ)
  | write_to_host (data : List Byte)
  | read_from_host (size : ℕ)

namespace Device

variable {υ : Type} [UploadService υ]

/-- An operation of the system, with the events it adds. -/
def call (d : Device υ) (o : Op ApplicationEndpoint υ) : Device υ where
  system := d.system.step o
  trace := d.trace ++ ((d.system.step o).channel.history.drop d.system.channel.history.length).map
    .channel

/-- The sketch leaves the endpoint as it is now. -/
def sketch (d : Device υ) (endpoint : ApplicationEndpoint) (n : Note) : Device υ where
  system := d.system.step (.backend endpoint)
  trace := d.trace ++ [n]

def step (d : Device υ) : DeviceOp υ → Device υ
  | .construct owner now identity has_upload => d.call (.construct owner now identity has_upload)
  | .poll owner input => d.call (.poll owner input)
  | .close owner => d.call (.close owner)
  | .destroy owner => d.call (.destroy owner)
  | .upload u => d.call (.upload u)
  | .write_to_host data =>
    let (n, endpoint) := d.system.channel.backend.write_to_host data
    d.sketch endpoint (.wrote (data.take n))
  | .read_from_host size =>
    let (bytes, endpoint) := d.system.channel.backend.read_from_host size
    d.sketch endpoint (.read bytes)

/-- A run from a device with no session. -/
def after (u : υ) (ops : List (DeviceOp υ)) : Device υ :=
  Runs.run step ⟨System.initial {} u, []⟩ ops

end Device

/-! ## Reading a trace -/

/-- The events of the channel. -/
def events : List Note → List Event := List.filterMap fun
  | .channel e => some e
  | _ => none

def opens : Note → Bool
  | .channel e => is_opened e
  | _ => false

/-- The bytes of one note that the sketch wrote, or read. -/
def Note.written : Note → List Byte
  | .wrote bytes => bytes
  | _ => []

def Note.taken : Note → List Byte
  | .read bytes => bytes
  | _ => []

/-- What the sketch wrote, and read, since the channel was opened. -/
def wrote : List Note → List Byte := Runs.since opens Note.written
def taken : List Note → List Byte := Runs.since opens Note.taken

@[simp] theorem events_channel (trace : List Note) (e : Event) :
    events (trace ++ [.channel e]) = events trace ++ [e] := by
  simp [events]

@[simp] theorem events_wrote (trace : List Note) (bytes : List Byte) :
    events (trace ++ [.wrote bytes]) = events trace := by
  simp [events]

@[simp] theorem events_read (trace : List Note) (bytes : List Byte) :
    events (trace ++ [.read bytes]) = events trace := by
  simp [events]

/-! ## The endpoint's rings -/

/-- The rings between the sketch and the channel: in a tenure, what the sketch wrote is
what the channel fetched and what the ring holds, and what the channel stored is what
the sketch read and what the other ring holds. Out of one, the endpoint is inactive. -/
structure Link (owner : UInt32) (a : ApplicationEndpoint) (history : List Event)
    (trace : List Note) : Prop where
  events_eq : events trace = history
  holder_eq : holder history = owner
  rx : a.rx.Wf
  tx : a.tx.Wf
  active : a.active = true ↔ owner ≠ 0
  outward : owner ≠ 0 → wrote trace = returned history ++ a.tx.contents
  inward : owner ≠ 0 → accepted history = taken trace ++ a.rx.contents

/-- The same, at every point of the trace; and the sketch's bytes pass only in a
tenure. -/
structure Linked (owner : UInt32) (a : ApplicationEndpoint) (history : List Event)
    (trace : List Note) : Prop extends Link owner a history trace where
  every : ∀ pre, pre <+: trace → holder (events pre) ≠ 0 →
    returned (events pre) <+: wrote pre ∧ taken pre <+: accepted (events pre)
  inside : ∀ pre n, pre ++ [n] <+: trace → n.written ≠ [] ∨ n.taken ≠ [] → holder (events pre) ≠ 0

section Linked

variable {owner owner' : UInt32} {a a' : ApplicationEndpoint} {history history' : List Event}
  {trace : List Note}

/-- One more note. -/
theorem Linked.concat (h : Linked owner a history trace) {n : Note}
    (hlink : Link owner' a' history' (trace ++ [n])) (hinside : n.written ≠ [] ∨ n.taken ≠ [] → owner ≠ 0) :
    Linked owner' a' history' (trace ++ [n]) := by
  refine { hlink with every := ?_, inside := ?_ }
  · intro pre hpre h0
    rw [List.prefix_concat_iff] at hpre
    rcases hpre with rfl | hpre
    · rw [hlink.events_eq] at h0 ⊢
      rw [hlink.holder_eq] at h0
      refine ⟨?_, ?_⟩
      · rw [hlink.outward h0]
        exact List.prefix_append _ _
      · rw [hlink.inward h0]
        exact List.prefix_append _ _
    · exact h.every pre hpre h0
  · intro pre m hpre hm
    rw [List.prefix_concat_iff] at hpre
    rcases hpre with heq | hpre
    · obtain ⟨rfl, hn⟩ := List.append_inj' heq rfl
      rw [List.singleton_inj] at hn
      rw [h.events_eq, h.holder_eq]
      exact hinside (hn ▸ hm)
    · exact h.inside pre m hpre hm

/-- An event that only a session and its transport take part in. -/
theorem Linked.session (h : Linked owner a history trace) (hsess : sessional e = true) :
    Linked owner a (history ++ [e]) (trace ++ [.channel e]) := by
  have hs : ∀ x ∈ [e], sessional x = true := by simpa using hsess
  have hlife : lifecycle e = false := by cases e <;> first | rfl | cases hsess
  have hopen : opens (.channel e) = false := by cases e <;> first | rfl | cases hsess
  refine h.concat ⟨?_, ?_, h.rx, h.tx, h.active, ?_, ?_⟩ (by simp [Note.written, Note.taken])
  · rw [events_channel, h.events_eq]
  · rw [holder_quiet _ hlife, h.holder_eq]
  · intro h0
    rw [wrote, Runs.since_concat, hopen, returned_sessional _ hs, ← h.outward h0]
    simp [wrote, Note.written]
  · intro h0
    rw [taken, Runs.since_concat, hopen, accepted_sessional _ hs, h.inward h0]
    simp [taken, Note.taken]

/-- The channel reads what the sketch wrote. -/
theorem Linked.fetch (h : Linked owner a history trace) (h0 : owner ≠ 0) (capacity : ℕ) :
    (a.read capacity).1.length ≤ capacity ∧
      Linked owner (a.read capacity).2 (history ++ [.backend_read (a.read capacity).1])
        (trace ++ [.channel (.backend_read (a.read capacity).1)]) := by
  have hread : a.read capacity = ((a.tx.pop capacity).1, { a with tx := (a.tx.pop capacity).2 }) := by
    rw [ApplicationEndpoint.read, if_pos (h.active.mpr h0)]
  rw [hread]
  refine ⟨Ring.pop_length h.tx capacity, ?_⟩
  refine h.concat ⟨?_, ?_, h.rx, Ring.pop_wf h.tx _, h.active, ?_, ?_⟩ (by simp [Note.written, Note.taken])
  · rw [events_channel, h.events_eq]
  · rw [holder_quiet _ rfl, h.holder_eq]
  · intro h0
    have hall := h.outward h0
    rw [Ring.pop_contents h.tx capacity] at hall
    simpa [wrote, returned, Runs.since_concat, opens, is_opened, Note.written] using hall
  · intro h0
    have hall := h.inward h0
    simpa [taken, accepted, Runs.since_concat, opens, is_opened, Note.taken] using hall

/-- The channel writes what the sketch will read. -/
theorem Linked.store (h : Linked owner a history trace) (h0 : owner ≠ 0) (data : List Byte) :
    (a.write data).1 ≤ data.length ∧
      Linked owner (a.write data).2 (history ++ [.backend_write (data.take (a.write data).1)])
        (trace ++ [.channel (.backend_write (data.take (a.write data).1))]) := by
  have hwrite : a.write data = ((a.rx.push data).1, { a with rx := (a.rx.push data).2 }) := by
    rw [ApplicationEndpoint.write, if_pos (h.active.mpr h0)]
  rw [hwrite]
  refine ⟨Ring.push_le _ _, ?_⟩
  refine h.concat ⟨?_, ?_, Ring.push_wf h.rx _, h.tx, h.active, ?_, ?_⟩ (by simp [Note.written, Note.taken])
  · rw [events_channel, h.events_eq]
  · rw [holder_quiet _ rfl, h.holder_eq]
  · intro h0
    have hall := h.outward h0
    simpa [wrote, returned, Runs.since_concat, opens, is_opened, Note.written] using hall
  · intro h0
    have hall := h.inward h0
    rw [Ring.push_contents h.rx data]
    simp only [taken, accepted, Runs.since_concat, opens, is_opened, Note.taken] at hall ⊢
    simp [hall]

/-- A tenure starts with empty rings, and an active endpoint. -/
theorem Linked.opening (h : Linked owner a history trace) (hfree : owner = 0) {t : UInt32} (ht : t ≠ 0) :
    Linked t (a.discard.opened t) (history ++ Machine.opening t)
      (trace ++ (Machine.opening t).map .channel) := by
  subst hfree
  -- between the two calls nobody owns the channel yet
  have hmid : Linked 0 a (history ++ [.discard t]) (trace ++ [.channel (.discard t)]) := by
    refine h.concat ⟨?_, ?_, h.rx, h.tx, h.active, ?_, ?_⟩ (by simp [Note.written, Note.taken])
    · rw [events_channel, h.events_eq]
    · rw [holder_concat]
      exact h.holder_eq
    · exact fun hne => absurd rfl hne
    · exact fun hne => absurd rfl hne
  have hhistory : history ++ Machine.opening t = (history ++ [.discard t]) ++ [.opened t] := by
    rw [List.append_assoc]
    rfl
  have htrace : trace ++ (Machine.opening t).map .channel
      = (trace ++ [.channel (.discard t)]) ++ [.channel (.opened t)] := by
    rw [List.append_assoc]
    rfl
  rw [hhistory, htrace]
  refine hmid.concat ⟨?_, ?_, h.rx.cleared, h.tx.cleared, ?_, ?_, ?_⟩
    (by simp [Note.written, Note.taken])
  · rw [events_channel, hmid.events_eq]
  · rw [holder_concat]
  · exact ⟨fun _ => ht, fun _ => rfl⟩
  · intro _
    rw [wrote, returned, Runs.since_reset _ _ rfl, Runs.since_reset _ _ rfl]
    exact (Ring.contents_empty (r := (a.discard.opened t).tx) rfl).symm
  · intro _
    rw [taken, accepted, Runs.since_reset _ _ rfl, Runs.since_reset _ _ rfl]
    exact (Ring.contents_empty (r := (a.discard.opened t).rx) rfl).symm

/-- A tenure ends with an inactive endpoint. -/
theorem Linked.ending (h : Linked owner a history trace) (t : UInt32) :
    Linked 0 a.closed.discard (history ++ Machine.ending t)
      (trace ++ (Machine.ending t).map .channel) := by
  have hmid : Linked 0 a.closed (history ++ [.closed t]) (trace ++ [.channel (.closed t)]) := by
    refine h.concat ⟨?_, ?_, h.rx, h.tx, ?_, ?_, ?_⟩ (by simp [Note.written, Note.taken])
    · rw [events_channel, h.events_eq]
    · rw [holder_concat]
    · simp [ApplicationEndpoint.closed]
    · exact fun hne => absurd rfl hne
    · exact fun hne => absurd rfl hne
  have hhistory : history ++ Machine.ending t = (history ++ [.closed t]) ++ [.discard t] := by
    rw [List.append_assoc]
    rfl
  have htrace : trace ++ (Machine.ending t).map .channel
      = (trace ++ [.channel (.closed t)]) ++ [.channel (.discard t)] := by
    rw [List.append_assoc]
    rfl
  rw [hhistory, htrace]
  refine hmid.concat ⟨?_, ?_, h.rx.cleared, h.tx.cleared, ?_, ?_, ?_⟩
    (by simp [Note.written, Note.taken])
  · rw [events_channel, hmid.events_eq]
  · rw [holder_concat]
    exact hmid.holder_eq
  · simp [ApplicationEndpoint.closed, ApplicationEndpoint.discard]
  · exact fun hne => absurd rfl hne
  · exact fun hne => absurd rfl hne

/-- **Every effect of a session keeps the rings linked.** -/
theorem Effect.linked {υ : Type} [UploadService υ] {t : UInt32} {attached : Bool}
    {w w' : World ApplicationEndpoint υ} (heffect : Effect t attached w w') (ht : t ≠ 0)
    (h : Linked w.owner w.backend w.history trace) :
    ∃ more, w'.history = w.history ++ more ∧
      Linked w'.owner w'.backend w'.history (trace ++ more.map .channel) := by
  -- an effect that neither adds an event nor touches the rings
  have hquiet : w'.owner = w.owner → w'.backend = w.backend → w'.history = w.history →
      ∃ more, w'.history = w.history ++ more ∧
        Linked w'.owner w'.backend w'.history (trace ++ more.map .channel) := by
    intro ho hb hh
    refine ⟨[], by rw [hh, List.append_nil], ?_⟩
    rw [ho, hb, hh, List.map_nil, List.append_nil]
    exact h
  cases heffect with
  | note e own named => exact ⟨[e], rfl, h.session own⟩
  | fetch capacity owns =>
    obtain ⟨hle, hlinked⟩ := h.fetch (by rw [owns]; exact ht) capacity
    refine ⟨[.backend_read (w.backend.read capacity).1], ?_, ?_⟩
    · exact congrArg (w.history ++ ·) (if_pos hle)
    · simp only [StreamBackend.read, if_pos hle]
      exact hlinked
  | store data owns =>
    obtain ⟨hle, hlinked⟩ := h.store (by rw [owns]; exact ht) data
    refine ⟨[.backend_write (data.take (w.backend.write data).1)], ?_, ?_⟩
    · exact congrArg (w.history ++ ·) (if_pos hle)
    · simp only [StreamBackend.write, if_pos hle]
      exact hlinked
  | prepare free => exact hquiet rfl rfl rfl
  | configure value => exact hquiet rfl rfl rfl
  | report => exact hquiet rfl rfl rfl
  | acquire token free unblocked => exact ⟨_, rfl, h.opening free ht⟩
  | release token owns => exact ⟨_, rfl, h.ending t⟩
  | call call has free => exact hquiet rfl rfl rfl
  | disconnect has first => exact hquiet rfl rfl rfl
  | leave told => exact hquiet rfl rfl rfl

/-- The sketch writes: what is accepted enters the ring, and only in a tenure. -/
theorem Linked.write_to_host (h : Linked owner a history trace) (data : List Byte) :
    Linked owner (a.write_to_host data).2 history
      (trace ++ [.wrote (data.take (a.write_to_host data).1)]) := by
  by_cases hactive : a.active = true
  · have h0 := h.active.mp hactive
    have hwrite : a.write_to_host data
        = ((a.tx.push data).1, { a with tx := (a.tx.push data).2 }) := by
      rw [ApplicationEndpoint.write_to_host, if_pos hactive]
    rw [hwrite]
    refine h.concat ⟨?_, h.holder_eq, h.rx, Ring.push_wf h.tx _, h.active, ?_, ?_⟩ (fun _ => h0)
    · rw [events_wrote, h.events_eq]
    · intro _
      have hall := h.outward h0
      rw [Ring.push_contents h.tx data]
      simp only [wrote, Runs.since_concat, opens, Note.written] at hall ⊢
      simp [hall]
    · intro _
      have hall := h.inward h0
      simpa [taken, Runs.since_concat, opens, Note.taken] using hall
  · have hwrite : a.write_to_host data = (0, a) := by
      rw [ApplicationEndpoint.write_to_host, if_neg hactive]
    have h0 : ¬ owner ≠ 0 := fun hne => hactive (h.active.mpr hne)
    rw [hwrite]
    refine h.concat ⟨?_, h.holder_eq, h.rx, h.tx, h.active, ?_, ?_⟩ (by simp [Note.written, Note.taken])
    · rw [events_wrote, h.events_eq]
    · exact fun hne => absurd hne h0
    · exact fun hne => absurd hne h0

/-- The sketch reads. -/
theorem Linked.read_from_host (h : Linked owner a history trace) (size : ℕ) :
    Linked owner (a.read_from_host size).2 history
      (trace ++ [.read (a.read_from_host size).1]) := by
  by_cases hactive : a.active = true
  · have h0 := h.active.mp hactive
    have hread : a.read_from_host size
        = ((a.rx.pop size).1, { a with rx := (a.rx.pop size).2 }) := by
      rw [ApplicationEndpoint.read_from_host, if_pos hactive]
    rw [hread]
    refine h.concat ⟨?_, h.holder_eq, Ring.pop_wf h.rx _, h.tx, h.active, ?_, ?_⟩ (fun _ => h0)
    · rw [events_read, h.events_eq]
    · intro _
      have hall := h.outward h0
      simpa [wrote, Runs.since_concat, opens, Note.written] using hall
    · intro _
      have hall := h.inward h0
      rw [Ring.pop_contents h.rx size] at hall
      simpa [taken, Runs.since_concat, opens, Note.taken] using hall
  · have hread : a.read_from_host size = ([], a) := by
      rw [ApplicationEndpoint.read_from_host, if_neg hactive]
    have h0 : ¬ owner ≠ 0 := fun hne => hactive (h.active.mpr hne)
    rw [hread]
    refine h.concat ⟨?_, h.holder_eq, h.rx, h.tx, h.active, ?_, ?_⟩ (by simp [Note.written, Note.taken])
    · rw [events_read, h.events_eq]
    · exact fun hne => absurd hne h0
    · exact fun hne => absurd hne h0

end Linked

/-! ## Every run of a device -/

namespace Device

variable {υ : Type} [UploadService υ]

/-- The rings of a device are linked. -/
def Joined (d : Device υ) : Prop :=
  Linked d.system.channel.stream.owner d.system.channel.backend d.system.channel.history d.trace

/-- The rule for the effects of one call, from the history and the trace before it. -/
theorem joined_rule (history : List Event) (trace : List Note) :
    WorldRule (fun _ => True) (fun w : World ApplicationEndpoint υ =>
      ∃ more, w.history = history ++ more ∧
        Linked w.owner w.backend w.history (trace ++ more.map .channel)) where
  effect := by
    rintro t attached w w' ht - heffect ⟨more, hh, hlinked⟩
    obtain ⟨more', hh', hlinked'⟩ := heffect.linked ht hlinked
    refine ⟨more ++ more', by rw [hh', hh, List.append_assoc], ?_⟩
    rw [List.map_append, ← List.append_assoc]
    exact hlinked'
  anyone := fun _ h => h

/-- What a run of the device keeps. -/
structure Kept (d : Device υ) : Prop where
  holds : System.Holds (fun k => Inward k ∧ Outward k) Sounds d.system
  joined : d.Joined

variable {d : Device υ}

omit [UploadService υ] in
theorem Kept.shares (h : d.Kept) :
    System.Shares (fun _ => True) (fun w => ∃ more, w.history = d.system.channel.history ++ more ∧
      Linked w.owner w.backend w.history (d.trace ++ more.map .channel)) d.system := by
  refine ⟨h.holds.ok, fun _ => trivial, [], by simp [System.world], ?_⟩
  rw [List.map_nil, List.append_nil]
  exact h.joined

/-- A call, from what the rule gives for it. -/
theorem Kept.call (h : d.Kept) {o : Op ApplicationEndpoint υ}
    (hworld : ∃ more, (d.system.step o).world.history = d.system.channel.history ++ more ∧
      Linked (d.system.step o).world.owner (d.system.step o).world.backend
        (d.system.step o).world.history (d.trace ++ more.map .channel)) : (d.call o).Kept := by
  obtain ⟨more, hh, hlinked⟩ := hworld
  refine ⟨sounds_rule.step h.holds o, ?_⟩
  have hdrop : (d.system.step o).channel.history.drop d.system.channel.history.length = more := by
    change (d.system.step o).world.history.drop _ = more
    rw [hh, List.drop_left]
  unfold Joined Device.call
  rw [hdrop]
  exact hlinked

/-- A call of the sketch. -/
theorem Kept.sketch (h : d.Kept) {endpoint : ApplicationEndpoint} {n : Note}
    (hlinked : Linked d.system.channel.stream.owner endpoint d.system.channel.history
      (d.trace ++ [n])) : (d.sketch endpoint n).Kept :=
  ⟨sounds_rule.step h.holds (.backend endpoint), hlinked⟩

/-- **Every operation keeps it.** -/
theorem Kept.step (h : d.Kept) (o : DeviceOp υ) : (d.step o).Kept := by
  have hrule := joined_rule (υ := υ) d.system.channel.history d.trace
  cases o with
  | construct owner now identity has_upload =>
    refine h.call (h.shares.construct owner now identity has_upload trivial ?_).world
    exact ⟨[.created owner], rfl, h.joined.session rfl⟩
  | poll owner input => exact h.call (h.shares.poll hrule owner input).world
  | close owner => exact h.call (h.shares.close hrule owner).world
  | destroy owner => exact h.call (h.shares.destroy hrule owner).world
  | upload u => exact h.call (o := .upload u) h.shares.world
  | write_to_host data => exact h.sketch (h.joined.write_to_host data)
  | read_from_host size => exact h.sketch (h.joined.read_from_host size)

/-- Every run of a device keeps its rings linked to the channel. -/
theorem kept_after (u : υ) (ops : List (DeviceOp υ)) : (after u ops).Kept := by
  refine Runs.run_invariant (P := Kept) step ?_ (fun _ o h => h.step o) ops
  refine ⟨sounds_rule.after ({} : ApplicationEndpoint) u [], ?_⟩
  refine { events_eq := rfl, holder_eq := rfl, rx := Ring.wf_initial, tx := Ring.wf_initial,
           active := ?_, outward := ?_, inward := ?_, every := ?_, inside := ?_ }
  · exact ⟨fun h => (by cases h), fun h => absurd rfl h⟩
  · exact fun h => absurd rfl h
  · exact fun h => absurd rfl h
  · intro pre hpre h0
    rw [List.prefix_nil.mp hpre] at h0
    exact absurd rfl h0
  · intro pre n hpre
    simp at hpre

/-! ## Tenures of a trace -/

/-- The note starts or ends a tenure. -/
def bounds : Note → Bool
  | .channel (.opened _) | .channel (.closed _) => true
  | _ => false

/-- The data of the serial frames that were queued for a peer in a stretch. -/
def sent_serial (stretch : List Note) : List Byte := stretch.flatMap fun
  | .channel (.queued _ f _) => data f
  | _ => []

/-- The data of the serial frames that were received from session `t` in a stretch. -/
def received_serial (t : UInt32) (stretch : List Note) : List Byte := stretch.flatMap fun
  | .channel (.received u f) => if u = t then data f else []
  | _ => []

/-- The note carries bytes of a tenure: the sketch's, or a serial frame's. -/
def carries : Note → Bool
  | .wrote bytes | .read bytes => bytes != []
  | .channel (.queued _ f _) => f.type = .serial
  | _ => false

/-- No byte leaves its tenure. -/
structure Isolated (trace : List Note) : Prop where
  /-- From the open on, up to any point before the close: every serial frame is the
  owner's, its data are in order a prefix of what the sketch wrote in this tenure, and what
  the sketch read is a prefix of what the owner sent in it. -/
  within : ∀ before t during rest, trace = before ++ .channel (.opened t) :: (during ++ rest) →
    (∀ n ∈ during, bounds n = false) →
    (∀ u f limit, .channel (.queued u f limit) ∈ during → f.type = .serial → u = t) ∧
    sent_serial during <+: during.flatMap Note.written ∧
    during.flatMap Note.taken <+: received_serial t during
  /-- While nobody owns the channel, no such byte moves. -/
  outside : ∀ before n rest, trace = before ++ n :: rest → holder (events before) = 0 →
    carries n = false

theorem opens_of_bounds {n : Note} (h : bounds n = false) : opens n = false := by
  cases n with
  | channel e => cases e <;> first | rfl | cases h
  | wrote bytes => rfl
  | read bytes => rfl

/-- The tenant of a stretch of a tenure. -/
theorem holder_during (before during : List Note) (t : UInt32) (h : ∀ n ∈ during, bounds n = false) :
    holder (events (before ++ .channel (.opened t) :: during)) = t := by
  induction during using List.reverseRecOn with
  | nil => rw [events_channel, holder_concat]
  | append_singleton during n ih =>
    have hbefore := ih fun x hx => h x (by simp [hx])
    have hn : bounds n = false := h n (by simp)
    rw [show before ++ .channel (.opened t) :: (during ++ [n])
      = (before ++ .channel (.opened t) :: during) ++ [n] by simp]
    cases n with
    | channel e =>
      rw [events_channel, holder_concat, hbefore]
      cases e <;> first | rfl | cases hn
    | wrote bytes => rw [events_wrote, hbefore]
    | read bytes => rw [events_read, hbefore]

/-- An account of the history, read off a stretch of the trace. -/
theorem since_during {emit : Event → List Byte} (before during : List Note) (t : UInt32)
    (h : ∀ n ∈ during, bounds n = false) :
    Runs.since is_opened emit (events (before ++ .channel (.opened t) :: during))
      = during.flatMap fun
        | .channel e => emit e
        | _ => [] := by
  have hevents : events (before ++ .channel (.opened t) :: during)
      = events before ++ .opened t :: events during := by
    simp [events]
  rw [hevents, Runs.since_after_reset _ _ _ rfl]
  · clear h hevents
    induction during with
    | nil => rfl
    | cons n during ih =>
      cases n with
      | channel e => simpa [events] using ih
      | wrote bytes => simpa [events] using ih
      | read bytes => simpa [events] using ih
  · intro e he
    obtain ⟨n, hn, hne⟩ := List.mem_filterMap.mp he
    cases n with
    | channel e' =>
      cases hne
      exact opens_of_bounds (h _ hn)
    | wrote bytes => cases hne
    | read bytes => cases hne

section During

variable (before : List Note) {during : List Note} {t : UInt32}
  (h : ∀ n ∈ during, bounds n = false)
include h

/-- Where every serial frame is the owner's, the serial data are the owner's. -/
theorem sent_serial_eq
    (howner : ∀ u f limit, .channel (.queued u f limit) ∈ during → f.type = .serial → u = t) :
    sent_serial during = queued_data t (events (before ++ .channel (.opened t) :: during)) := by
  rw [queued_data, since_during before during t h, sent_serial]
  refine List.flatMap_congr fun n hn => ?_
  cases n with
  | channel e =>
    cases e with
    | queued u f limit =>
      by_cases hf : f.type = .serial
      · exact (if_pos (howner u f limit hn hf)).symm
      · simp [data, hf]
    | _ => rfl
  | wrote bytes => rfl
  | read bytes => rfl

theorem received_serial_eq :
    received_serial t during = received_data t (events (before ++ .channel (.opened t) :: during)) := by
  rw [received_data, since_during before during t h, received_serial]
  refine List.flatMap_congr fun n _ => ?_
  cases n with
  | channel e => cases e <;> rfl
  | wrote bytes => rfl
  | read bytes => rfl

theorem wrote_during : wrote (before ++ .channel (.opened t) :: during) = during.flatMap Note.written :=
  Runs.since_after_reset _ _ _ rfl fun n hn => opens_of_bounds (h n hn)

theorem taken_during : taken (before ++ .channel (.opened t) :: during) = during.flatMap Note.taken :=
  Runs.since_after_reset _ _ _ rfl fun n hn => opens_of_bounds (h n hn)

end During

omit [UploadService υ] in
/-- The rings of a device that keeps them carry no byte from one tenure into another. -/
theorem Kept.isolated (h : d.Kept) : Isolated d.trace := by
  have hevents : events d.trace = d.system.channel.history := h.joined.events_eq
  -- the events of a stretch of the trace are a stretch of the history
  have hstretch : ∀ pre, pre <+: d.trace → events pre <+: d.system.channel.history := by
    intro pre hpre
    rw [← hevents]
    exact hpre.filterMap _
  have hserial : ∀ pre u f limit rest, d.trace = pre ++ .channel (.queued u f limit) :: rest →
      f.type = .serial → u = holder (events pre) ∧ u ≠ 0 := by
    intro pre u f limit rest hsplit hf
    have hpre := hstretch (pre ++ [.channel (.queued u f limit)]) ⟨rest, by rw [hsplit]; simp⟩
    rw [events_channel] at hpre
    exact h.holds.channel.serial _ u f limit hpre hf
  refine ⟨?_, ?_⟩
  · intro before t during rest hsplit hduring
    have hpre : before ++ .channel (.opened t) :: during <+: d.trace := ⟨rest, by rw [hsplit]; simp⟩
    have hholder := holder_during before during t hduring
    have ht : t ≠ 0 := by
      refine h.holds.channel.tokens t ?_
      change Event.opened t ∈ d.system.channel.history
      rw [← hevents, hsplit]
      simp [events]
    have howner : ∀ u f limit, .channel (.queued u f limit) ∈ during → f.type = .serial → u = t := by
      intro u f limit hmem hf
      obtain ⟨front, back, rfl⟩ := List.append_of_mem hmem
      have hqueued := (hserial (before ++ .channel (.opened t) :: front) u f limit (back ++ rest)
        (by rw [hsplit]; simp) hf).1
      rw [hqueued]
      exact holder_during before front t fun n hn => hduring n (by simp [hn])
    obtain ⟨hout, hin⟩ := h.joined.every _ hpre (by rw [hholder]; exact ht)
    obtain ⟨hqueued, haccepted⟩ := h.holds.channel.sound _ (hstretch _ hpre) (by rw [hholder]; exact ht)
    rw [hholder] at hqueued haccepted
    refine ⟨howner, ?_, ?_⟩
    · rw [sent_serial_eq before hduring howner, ← wrote_during before (t := t) hduring]
      exact hqueued.trans hout
    · rw [received_serial_eq before hduring, ← taken_during before (t := t) hduring]
      exact hin.trans haccepted
  · intro before n rest hsplit hfree
    have hpre : before ++ [n] <+: d.trace := ⟨rest, by rw [hsplit]; simp⟩
    have hsketch : ¬ (n.written ≠ [] ∨ n.taken ≠ []) := fun hn => h.joined.inside before n hpre hn hfree
    cases n with
    | channel e =>
      cases e with
      | queued u f limit =>
        by_contra hcarries
        have hf : f.type = .serial := by simpa [carries] using hcarries
        obtain ⟨hu, h0⟩ := hserial before u f limit rest hsplit hf
        exact h0 (hu.trans hfree)
      | _ => rfl
    | wrote bytes => simpa [Note.written, Note.taken, carries] using hsketch
    | read bytes => simpa [Note.written, Note.taken, carries] using hsketch

/-- **No client's bytes reach another, nor itself in a later tenure.** In every run of
every device, with any sessions and any calls of the sketch between theirs: within each
tenure, and so far as it has gone, all serial frames are the owner's, their data are in
order a prefix of what the sketch wrote in this tenure, and what the sketch read in it is
in order a prefix of the data the owner sent in it; and between tenures nothing of the
kind moves. What a transport accepted is the start of the frames its session queued. -/
theorem tenure_isolation (u : υ) (ops : List (DeviceOp υ)) :
    Isolated (after u ops).trace ∧
      ∀ t s, (after u ops).system.sessions t = some s →
        sent_bytes t (after u ops).system.channel.history
          <+: wires (frames t (after u ops).system.channel.history) := by
  have h := kept_after u ops
  refine ⟨h.isolated, ?_⟩
  intro t s hs
  have htoken : s.owner = t := h.holds.ok.token hs
  obtain ⟨rest, hdelivered⟩ := (h.holds.each hs).2.delivered
  have hsplit : wires (frames s.owner (after u ops).system.channel.history)
      = sent_bytes s.owner (after u ops).system.channel.history ++ rest := hdelivered.split
  rw [← htoken, hsplit]
  exact List.prefix_append _ _

/-- A client opens the channel and sends two bytes; the sketch reads them and writes two
others, before the open, during the tenure and after the close. -/
def exchange_run : List (DeviceOp NoUpload) :=
  let deliver (f : Frame) : List (DeviceOp NoUpload) :=
    [.poll 1 (System.offering ((wire f).take header_size)), .poll 1 (System.offering f.payload)]
  [.construct 1 0 System.sample_identity false, .write_to_host (ascii "no")] ++
    deliver ⟨.request, 1, ascii "\x7b\"op\":\"hello\"\x7d"⟩ ++
    deliver ⟨.request, 2, ascii "\x7b\"op\":\"serial.open\",\"channel_id\":1\x7d"⟩ ++
    deliver ⟨.serial, 0, bytes32_be 1 ++ ascii "hi"⟩ ++
    [.read_from_host 8, .write_to_host (ascii "ok"), .poll 1 (System.offering [])] ++
    deliver ⟨.request, 3, ascii "\x7b\"op\":\"serial.close\",\"channel_id\":1\x7d"⟩ ++
    [.write_to_host (ascii "no")]

/-- Of the six bytes the sketch tries to write, the client gets the two of its tenure. -/
theorem tenure_isolation_exchange :
    Isolated (after {} exchange_run).trace ∧
      (after {} exchange_run).trace.flatMap Note.taken = ascii "hi" ∧
      sent_serial (after {} exchange_run).trace = ascii "ok" := by
  have h := tenure_isolation ({} : NoUpload) exchange_run
  refine ⟨h.1, ?_, ?_⟩
  · decide +kernel
  · decide +kernel

end Device

end Firmingo
