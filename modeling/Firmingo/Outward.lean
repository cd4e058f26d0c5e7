/-
From the backend to the peer.

Bytes to the peer pass two buffers, the stream's `to_peer` and the session's output,
which the replies use too. The output is accounted for over the whole session, frame
by frame: what the transport took is what was queued, but for a rest that belongs to
the last frame. What a tenure queued as serial data, with what is pending, is what
the backend returned.
-/
import Firmingo.Inward

set_option autoImplicit false

open Octets

namespace Firmingo

open Protocol Machine

/-! ## From the backend to the peer -/

/-- The bytes of a list of frames. -/
def wires (fs : List (Frame × ℕ)) : List Byte := fs.flatMap fun f => wire f.1

/-- The account of the output: what was queued is what was sent and a rest, which is
the output while the session runs and in any case the end of the last frame. -/
structure Delivered (fs : List (Frame × ℕ)) (sent : List Byte) (p : Party) (rest : List Byte) :
    Prop where
  split : wires fs = sent ++ rest
  output : p.result = .running → rest = p.output
  last : rest = [] ∨ ∃ front f, fs = front ++ [f] ∧ rest <:+ wire f.1

/-- A frame and the limit it was queued under. -/
structure Allowed (f : Frame × ℕ) : Prop where
  sendable : Sendable f.1
  fits : f.1.payload.length ≤ f.2
  limit_ge : min_offer ≤ f.2
  limit_le : f.2 ≤ max_payload

/-- The outward account of a session. -/
structure Outward (k : Config) : Prop where
  bytes : k.party.owned = true →
    queued_data k.party.token k.shared.history ++ k.shared.to_peer = returned k.shared.history
  allowed : ∀ f ∈ frames k.party.token k.shared.history, Allowed f
  delivered : ∃ rest, Delivered (frames k.party.token k.shared.history)
    (sent_bytes k.party.token k.shared.history) k.party rest

/-- The events the outward account is made of. -/
def moves_outward : Event → Bool
  | .opened _ | .created _ | .queued _ _ _ | .sent _ _ | .backend_read _ => true
  | _ => false

/-- Events that move no outward byte. -/
theorem outward_quiet (t : UInt32) (history : List Event) {more : List Event}
    (hm : ∀ e ∈ more, moves_outward e = false) :
    queued_data t (history ++ more) = queued_data t history ∧
    returned (history ++ more) = returned history ∧
    frames t (history ++ more) = frames t history ∧
    sent_bytes t (history ++ more) = sent_bytes t history := by
  refine ⟨?_, ?_, ?_, ?_⟩ <;>
  · refine Runs.since_quiet _ _ _ _ fun e he => ?_
    have he := hm e he
    cases e <;> simp_all [moves_outward, is_opened, is_created]

/-- An action that moves no outward byte, and stops the session at most. -/
theorem Outward.quiet {k k' : Config} (h : Outward k) (more : List Event)
    (hm : ∀ e ∈ more, moves_outward e = false)
    (hh : k'.shared.history = k.shared.history ++ more) (ht : k'.party.token = k.party.token)
    (hb : k'.party.owned = true → k.party.owned = true ∧ k'.shared.to_peer = k.shared.to_peer)
    (hr : k'.party.result = .running →
      k.party.result = .running ∧ k'.party.output = k.party.output) : Outward k' := by
  obtain ⟨hq, hret, hf, hs⟩ := outward_quiet k.party.token k.shared.history hm
  obtain ⟨rest, hdel⟩ := h.delivered
  refine ⟨fun howned => ?_, ?_, rest, ?_, ?_, ?_⟩
  · rw [hh, ht, hq, hret, (hb howned).2]
    exact h.bytes (hb howned).1
  · rw [hh, ht, hf]
    exact h.allowed
  · rw [hh, ht, hf, hs]
    exact hdel.split
  · intro hrun
    rw [(hr hrun).2]
    exact hdel.output (hr hrun).1
  · rw [hh, ht, hf]
    exact hdel.last

/-- Queueing a frame, with the output empty. -/
theorem Delivered.queue {fs : List (Frame × ℕ)} {sent : List Byte} {p p' : Party} {rest : List Byte}
    (h : Delivered fs sent p rest) (hrun : p.result = .running) (hidle : p.output = [])
    (f : Frame × ℕ) (hout : p'.output = wire f.1) : Delivered (fs ++ [f]) sent p' (wire f.1) := by
  have hrest : rest = [] := (h.output hrun).trans hidle
  refine ⟨?_, fun _ => hout.symm, .inr ⟨fs, f, rfl, List.suffix_rfl⟩⟩
  have hsplit := h.split
  rw [hrest, List.append_nil] at hsplit
  rw [← hsplit]
  simp [wires]

/-- Sending part of the output. -/
theorem Delivered.send {fs : List (Frame × ℕ)} {sent : List Byte} {p p' : Party} {rest : List Byte}
    (h : Delivered fs sent p rest) (hrun : p.result = .running) (n : ℕ)
    (hout : p'.output = p.output.drop n) :
    Delivered fs (sent ++ p.output.take n) p' (p.output.drop n) := by
  have hrest := h.output hrun
  refine ⟨?_, fun _ => hout.symm, ?_⟩
  · rw [h.split, hrest, List.append_assoc, List.take_append_drop]
  · rcases h.last with hnil | ⟨front, f, hfs, hsuf⟩
    · left
      rw [← hrest, hnil, List.drop_nil]
    · exact .inr ⟨front, f, hfs, (List.drop_suffix n _).trans (hrest ▸ hsuf)⟩

/-- The accounts after a frame was queued. -/
theorem queued_accounts (t : UInt32) (history : List Event) (f : Frame) (limit : ℕ) :
    queued_data t (history ++ [.queued t f limit]) = queued_data t history ++ data f ∧
    returned (history ++ [.queued t f limit]) = returned history ∧
    frames t (history ++ [.queued t f limit]) = frames t history ++ [(f, limit)] ∧
    sent_bytes t (history ++ [.queued t f limit]) = sent_bytes t history := by
  simp [queued_data, returned, frames, sent_bytes, Runs.since_concat, is_opened, is_created]

/-- **Every action keeps the outward account.** -/
theorem Outward.act {k k' : Config} (hact : Act k k') (hi : Inv k) (h : Outward k) : Outward k' := by
  obtain ⟨rest, hdel⟩ := h.delivered
  cases hact with
  | feed p s bytes running incomplete =>
    refine h.quiet _ ?_ rfl rfl (fun ho => ⟨ho, rfl⟩) (fun hr => ⟨hr, rfl⟩)
    intro e he
    split at he
    · rw [List.mem_singleton.mp he]
      rfl
    · cases he
  | send p s n running fits =>
    have hsent : sent_bytes p.token (s.history ++ [.sent p.token (p.output.take n)])
        = sent_bytes p.token s.history ++ p.output.take n := by
      simp [sent_bytes, Runs.since_concat, is_created]
    have hframes : frames p.token (s.history ++ [.sent p.token (p.output.take n)])
        = frames p.token s.history := by
      simp [frames, Runs.since_concat, is_created]
    refine ⟨fun howned => ?_, ?_, p.output.drop n, ?_⟩
    · simpa [queued_data, returned, Shared.log, Runs.since_concat, is_opened] using h.bytes howned
    · simp only [Shared.log, hframes]
      exact h.allowed
    · simp only [Shared.log, hframes, hsent]
      exact hdel.send running n rfl
  | answer p s payload limit running ready control idle limit_ge limit_le fits buffer =>
    obtain ⟨hq, hret, hf, hs⟩ := queued_accounts p.token s.history
      ⟨.response, p.decoder.request, payload⟩ limit
    -- a control frame without a request ID does not reach `ready`
    have hrequest : p.decoder.request ≠ 0 :=
      hi.wf.request_ne_zero ready (ne_serial_of_control control)
        (by rcases control with hc | hc <;> rw [hc] <;> decide)
    refine ⟨fun howned => ?_, ?_, wire ⟨.response, p.decoder.request, payload⟩, ?_⟩
    · simp only [Shared.log, hq, hret]
      simpa [data] using h.bytes howned
    · simp only [Shared.log, hf, List.forall_mem_append, List.forall_mem_singleton]
      refine ⟨h.allowed, .inl ⟨rfl, hrequest, word32_be_lt _⟩, fits, limit_ge, limit_le⟩
    · simp only [Shared.log, hf, hs]
      exact hdel.queue running idle _ rfl
  | acquire p s running token free ready control =>
    have hsent : sent_bytes p.token (s.history ++ opening p.token)
        = sent_bytes p.token s.history :=
      Runs.since_quiet _ _ _ _ (by simp [opening, is_created])
    have hframes : frames p.token (s.history ++ opening p.token) = frames p.token s.history :=
      Runs.since_quiet _ _ _ _ (by simp [opening, is_created])
    -- both accounts of bytes start anew at the opening
    refine ⟨fun _ => ?_, ?_, rest, ?_⟩
    · simp only [queued_data, returned, Shared.log, Shared.vacant, since_opening]
      rfl
    · simp only [Shared.log, Shared.vacant, hframes]
      exact h.allowed
    · simp only [Shared.log, Shared.vacant, hframes, hsent]
      exact ⟨hdel.split, hdel.output, hdel.last⟩
  | release p s owned =>
    exact h.quiet (ending p.token) (by simp [ending, moves_outward]) rfl rfl
      (fun ho => by cases ho) (fun hr => ⟨hr, rfl⟩)
  | stop p s result limit unowned limit_ge limit_le terminal =>
    exact h.quiet [] (by simp) (by simp) rfl (fun ho => ⟨ho, rfl⟩)
      (fun hr => absurd hr terminal)
  | pull p s count running owned empty ready serial count_eq =>
    refine h.quiet [] (by simp) (by simp) ?_ (fun _ => ⟨owned, rfl⟩)
      (fun _ => ⟨running, ?_⟩)
    · dsimp only
      split <;> rfl
    · dsimp only
      split <;> rfl
  | push p s n running owned fits =>
    exact h.quiet _ (by simp [moves_outward]) rfl rfl (fun ho => ⟨ho, rfl⟩) (fun hr => ⟨hr, rfl⟩)
  | fetch p s bytes running owned empty fits =>
    have hb := h.bytes owned
    have hsent : sent_bytes p.token (s.history ++ [.backend_read bytes])
        = sent_bytes p.token s.history := by
      simp [sent_bytes, Runs.since_concat, is_created]
    have hframes : frames p.token (s.history ++ [.backend_read bytes])
        = frames p.token s.history := by
      simp [frames, Runs.since_concat, is_created]
    refine ⟨fun _ => ?_, ?_, rest, ?_⟩
    · simp only [empty, List.append_nil] at hb
      simp only [queued_data, returned, Shared.log, Runs.since_concat, is_opened] at hb ⊢
      simp [hb]
    · simp only [Shared.log, hframes]
      exact h.allowed
    · simp only [Shared.log, hframes, hsent]
      exact hdel
  | emit p s running owned some_data idle =>
    obtain ⟨hq, hret, hf, hs⟩ := queued_accounts p.token s.history
      ⟨.serial, 0, bytes32_be 1 ++ s.to_peer⟩ p.decoder.limit
    -- 256 bytes and the channel number fit the least limit that is offered
    have hlen : s.to_peer.length ≤ 256 := hi.to_peer_le
    have hpos : 1 ≤ s.to_peer.length := List.length_pos_iff.mpr some_data
    have hlimit : 512 ≤ p.decoder.limit := hi.wf.limit_ge
    refine ⟨fun howned => ?_, ?_, wire ⟨.serial, 0, bytes32_be 1 ++ s.to_peer⟩, ?_⟩
    · simp only [Shared.log, hq, hret]
      have hdata : data ⟨.serial, 0, bytes32_be 1 ++ s.to_peer⟩ = s.to_peer := rfl
      rw [hdata, List.append_nil]
      exact h.bytes howned
    · simp only [Shared.log, hf, List.forall_mem_append, List.forall_mem_singleton]
      refine ⟨h.allowed, .inr ⟨rfl, rfl, s.to_peer, rfl, hpos, hlen⟩, ?_, hi.wf.limit_ge,
        hi.wf.limit_le⟩
      simp only [List.length_append, bytes32_be_length]
      omega
    · simp only [Shared.log, hf, hs]
      exact hdel.queue running idle _ rfl

/-- Every action keeps the outward account, so every run does. -/
theorem outward_rule : System.Rule Outward (fun _ => True) where
  start := trivial
  act := fun hact hi h _ => ⟨h.act hact hi, trivial⟩
  other := by
    intro p s s' t more hseen hne hi h
    obtain ⟨rest, hdel⟩ := h.delivered
    have hframes := frames_foreign hne s.history hseen.named
    have hsent := sent_bytes_foreign hne s.history hseen.named
    refine ⟨fun howned => ?_, ?_, rest, ?_⟩
    · have howner : s.owner = p.token := hi.owned_iff.mp howned
      obtain ⟨hs', hsess⟩ := hseen.foreign (by rw [howner]; exact hi.token)
        (by rw [howner]; exact hne)
      simp only [hs', Shared.log, queued_data_foreign hne _ hseen.named hsess,
        returned_sessional _ hsess]
      exact h.bytes howned
    · simp only [hseen.history, hframes]
      exact h.allowed
    · simp only [hseen.history, hframes, hsent]
      exact hdel
  fresh := by
    intro p s _ hout _ howned
    have hno : ¬ p.owned = true := by rw [howned]; decide
    have hframes : frames p.token (s.history ++ [.created p.token]) = [] := by
      simp [frames, Runs.since_concat, is_created]
    have hsent : sent_bytes p.token (s.history ++ [.created p.token]) = [] := by
      simp [sent_bytes, Runs.since_concat, is_created]
    refine ⟨fun h => absurd h hno, ?_, [], ?_⟩
    · simp only [Shared.log, hframes]
      exact fun f hf => absurd hf List.not_mem_nil
    · simp only [Shared.log, hframes, hsent]
      exact ⟨rfl, fun _ => hout.symm, .inl rfl⟩
  created := fun _ _ => trivial

/-- An allowed frame decodes to itself under the limit it was queued under. -/
theorem Allowed.decodes {f : Frame × ℕ} (h : Allowed f) :
    ∃ d, ({ limit := f.2 } : Decoder).feed_all (wire f.1) ((wire f.1).length + 1) = (d, []) ∧
      d.state = .ready ∧ d.frame = f.1 := by
  have hmax : f.1.payload.length ≤ max_payload := h.fits.trans h.limit_le
  have hvalid : valid_fields f.1.type.code f.1.request = true ∧ f.1.request < 2 ^ 32 := by
    rcases h.sendable with ⟨ht, h0, hlt⟩ | ⟨ht, h0, -⟩
    · exact ⟨by simp [ht, valid_fields, FrameType.code, h0], hlt⟩
    · exact ⟨by simp [ht, valid_fields, FrameType.code, h0], by omega⟩
  have henc : encode (header_size + f.1.payload.length) f.1.type f.1.request f.1.payload
      = some (wire f.1) := by
    simp [encode, wire, hvalid.1, hmax]
  exact Decoder.feed_all_encode henc hvalid.2 h.fits h.limit_le

/-! ## After the end -/

/-- A session that has ended stays ended, and records nothing. -/
theorem Machine.Acts.of_terminal {k k' : Config} (h : Acts k k') (hi : Inv k)
    (hterm : k.party.result ≠ .running) :
    k'.party.result ≠ .running ∧ k'.shared.history = k.shared.history := by
  induction h with
  | refl => exact ⟨hterm, rfl⟩
  | @tail b c hab hact ih =>
    obtain ⟨hterm', hh⟩ := ih
    have hi' := Acts.inv hab hi
    cases hact with
    | stop p s result limit unowned limit_ge limit_le terminal => exact ⟨terminal, hh⟩
    | release p s owned =>
      have hno := (hi'.terminal hterm').1
      rw [owned] at hno
      cases hno
    | push p s n running owned fits => exact absurd running hterm'
    | fetch p s bytes running owned empty fits => exact absurd running hterm'
    | pull p s count running owned empty ready serial count_eq => exact absurd running hterm'
    | emit p s running owned some_data idle => exact absurd running hterm'
    | feed p s bytes running incomplete => exact absurd running hterm'
    | send p s n running fits => exact absurd running hterm'
    | answer p s payload limit running ready control idle limit_ge limit_le fits buffer =>
      exact absurd running hterm'
    | acquire p s running token free ready control => exact absurd running hterm'

section Transport

variable {β υ : Type} [StreamBackend β] [UploadService υ]

/-- A session that has ended. -/
def System.Ended (sys : System β υ) (t : UInt32) : Prop :=
  ∃ s, sys.sessions t = some s ∧ s.result ≠ .running

omit [StreamBackend β] [UploadService υ] in
/-- A call on any session leaves an ended session ended, and silent. -/
theorem System.Ended.on {sys : System β υ} (hok : System.Ok sys) {t : UInt32} (h : sys.Ended t)
    (v : UInt32) {m : Ctx β υ → Ctx β υ}
    (hm : ∀ {c : Ctx β υ}, Inv c.config → Acts c.config (m c).config) :
    (sys.on v m).Ended t ∧
      sent_bytes t (sys.on v m).channel.history = sent_bytes t sys.channel.history := by
  obtain ⟨s, hs, hterm⟩ := h
  cases hv : sys.sessions v with
  | none =>
    have hon : sys.on v m = sys := by simp only [System.on, hv]
    rw [hon]
    exact ⟨⟨s, hs, hterm⟩, rfl⟩
  | some x =>
    have hon : sys.on v m = sys.put v (m (sys.ctx x)) := by simp only [System.on, hv]
    have hacts := hm (c := sys.ctx x) (hok.inv hv)
    rw [hon]
    by_cases hvt : v = t
    · subst hvt
      obtain rfl : s = x := Option.some.inj (hs.symm.trans hv)
      obtain ⟨hterm', hh⟩ := Acts.of_terminal hacts (hok.inv hv) hterm
      exact ⟨⟨_, Function.update_self .., hterm'⟩, congrArg (sent_bytes v) hh⟩
    · obtain ⟨more, hseen⟩ := Acts.seen hacts (hok.inv hv)
      have hne : t ≠ x.owner := by rw [hok.token hv]; exact fun h => hvt h.symm
      refine ⟨⟨s, ?_, hterm⟩, ?_⟩
      · rw [← hs]
        exact Function.update_of_ne (fun h => hvt h.symm) ..
      · have hh : (sys.put v (m (sys.ctx x))).channel.history = sys.channel.history ++ more :=
          hseen.history
        rw [hh]
        exact sent_bytes_foreign hne _ hseen.named

/-- So does every operation but its destruction. -/
theorem System.Ended.step {sys : System β υ} (hok : System.Ok sys) {t : UInt32} (h : sys.Ended t)
    {o : Op β υ} (ho : o ≠ .destroy t) :
    (sys.step o).Ended t ∧
      sent_bytes t (sys.step o).channel.history = sent_bytes t sys.channel.history := by
  cases o with
  | construct v now identity has_upload =>
    simp only [System.step]
    split
    · exact ⟨h, rfl⟩
    rename_i hnew
    obtain ⟨s, hs, hterm⟩ := h
    have hne : t ≠ v := by
      rintro rfl
      simp [hs] at hnew
    have hnamed : ∀ e ∈ [Event.created v], by_token v e = true := by simp [by_token]
    exact ⟨⟨s, by rw [← hs]; exact Function.update_of_ne hne .., hterm⟩,
      sent_bytes_foreign hne sys.channel.history hnamed⟩
  | poll v input => exact h.on hok v (fun hi => Ctx.poll_acts hi input)
  | close v => exact h.on hok v Ctx.close_acts
  | destroy v =>
    obtain ⟨⟨s, hs, hterm⟩, hsent⟩ := h.on hok v Ctx.close_acts
    have hne : t ≠ v := by rintro rfl; exact ho rfl
    exact ⟨⟨s, by rw [← hs]; exact Function.update_of_ne hne .., hterm⟩, hsent⟩
  | backend b => exact ⟨h, rfl⟩
  | upload u => exact ⟨h, rfl⟩

/-- **Framing is never spliced and no byte to the peer is lost.** After every run, for
each live session: the bytes its transport accepted are its queued frames, but for a
rest at the end of the last one (the output, while the session runs); each frame is a
response or one of serial data, within the limit in force, and decodes to itself; the
owner's serial frames since the open, followed by what is pending, are exactly what
the backend returned; and once the session has ended, its transport is given nothing
more, whatever else happens before it is destroyed. -/
theorem backend_to_peer_integrity (b : β) (u : υ) (ops : List (Op β υ)) :
    let sys := System.after b u ops
    ∀ t s, sys.sessions t = some s →
      (∃ rest, wires (frames t sys.channel.history) = sent_bytes t sys.channel.history ++ rest ∧
        (s.result = .running → rest = s.output) ∧
        (rest = [] ∨ ∃ front f, frames t sys.channel.history = front ++ [f] ∧ rest <:+ wire f.1)) ∧
      (∀ f ∈ frames t sys.channel.history, Sendable f.1 ∧ f.1.payload.length ≤ f.2 ∧
        min_offer ≤ f.2 ∧ f.2 ≤ max_payload ∧
        ∃ d, ({ limit := f.2 } : Decoder).feed_all (wire f.1) ((wire f.1).length + 1) = (d, []) ∧
          d.state = .ready ∧ d.frame = f.1) ∧
      (s.owned = true → queued_data t sys.channel.history ++ sys.channel.stream.to_peer.bytes
        = returned sys.channel.history) ∧
      (s.result ≠ .running → ∀ later : List (Op β υ), Op.destroy t ∉ later →
        sent_bytes t (System.after b u (ops ++ later)).channel.history
          = sent_bytes t sys.channel.history) := by
  intro sys t s hs
  have h := outward_rule.after b u ops
  have htoken : s.owner = t := h.ok.token hs
  obtain ⟨hbytes, hallowed, rest, hdel⟩ := h.each hs
  subst htoken
  refine ⟨⟨rest, hdel.split, hdel.output, hdel.last⟩, ?_, hbytes, ?_⟩
  · intro f hf
    have ha := hallowed f hf
    exact ⟨ha.sendable, ha.fits, ha.limit_ge, ha.limit_le, ha.decodes⟩
  · intro hterm later hlater
    have hended : ∀ later : List (Op β υ), Op.destroy s.owner ∉ later →
        (System.after b u (ops ++ later)).Ended s.owner ∧
          sent_bytes s.owner (System.after b u (ops ++ later)).channel.history
            = sent_bytes s.owner sys.channel.history := by
      intro later
      induction later using List.reverseRecOn with
      | nil => exact fun _ => by rw [List.append_nil]; exact ⟨⟨s, hs, hterm⟩, rfl⟩
      | append_singleton later o ih =>
        intro hmem
        simp only [List.mem_append, List.mem_singleton, not_or] at hmem
        obtain ⟨hend, hsent⟩ := ih hmem.1
        have hok := (outward_rule.after b u (ops ++ later)).ok
        rw [← List.append_assoc, System.after, Runs.run_concat]
        obtain ⟨hend', hsent'⟩ := hend.step hok (o := o) (fun ho => hmem.2 ho.symm)
        exact ⟨hend', hsent'.trans hsent⟩
    exact (hended later hlater).2

end Transport

/-- The two bytes a session sent to a loopback come back to it. -/
theorem backend_to_peer_integrity_loopback :
    ∃ s, (System.after {} {} loopback_run).sessions 1 = some s ∧ s.owned = true ∧
      queued_data 1 (System.after {} {} loopback_run).channel.history
          ++ (System.after {} {} loopback_run).channel.stream.to_peer.bytes
        = returned (System.after {} {} loopback_run).channel.history ∧
      returned (System.after {} {} loopback_run).channel.history = ascii "hi" := by
  have hlive : ((System.after {} {} loopback_run).sessions 1).map (·.owned) = some true := by
    decide +kernel
  have hreturned : returned (System.after {} {} loopback_run).channel.history = ascii "hi" := by
    decide +kernel
  rw [Option.map_eq_some_iff] at hlive
  obtain ⟨s, hs, howned⟩ := hlive
  have h := backend_to_peer_integrity {} {} loopback_run
  exact ⟨s, hs, howned, (h 1 s hs).2.2.1 howned, hreturned⟩

end Firmingo
