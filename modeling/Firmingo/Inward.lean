/-
From the peer to the backend, every byte once and in order.

The histories are read here, for both directions: what entered since the channel was
opened, what left, what a session queued and sent. Bytes from the peer pass three
buffers (the frame in the decoder, the stream's `to_backend`, the backend), and
what entered is what left followed by what the buffers hold.
-/
import Firmingo.System
import Firmingo.Backends

set_option autoImplicit false

open Octets

namespace Firmingo

open Protocol Machine

/-! ## Reading the history -/

/-- The data of a serial frame: its payload without the channel prefix. -/
def data (f : Frame) : List Byte := if f.type = .serial then f.payload.drop 4 else []

def is_opened : Event → Bool
  | .opened _ => true
  | _ => false

def is_created (t : UInt32) : Event → Bool
  | .created u => u == t
  | _ => false

/-- The data of the serial frames session `t` decoded since the channel was opened. -/
def received_data (t : UInt32) : List Event → List Byte :=
  Runs.since is_opened fun
    | .received u f => if u = t then data f else []
    | _ => []

/-- The data of the serial frames session `t` queued since the channel was opened. -/
def queued_data (t : UInt32) : List Event → List Byte :=
  Runs.since is_opened fun
    | .queued u f _ => if u = t then data f else []
    | _ => []

/-- The bytes the backend accepted, and those it returned, since the channel was opened. -/
def accepted : List Event → List Byte :=
  Runs.since is_opened fun
    | .backend_write bytes => bytes
    | _ => []

def returned : List Event → List Byte :=
  Runs.since is_opened fun
    | .backend_read bytes => bytes
    | _ => []

/-- The frames session `t` queued in its life, each with the limit in force then. -/
def frames (t : UInt32) : List Event → List (Frame × ℕ) :=
  Runs.since (is_created t) fun
    | .queued u f limit => if u = t then [(f, limit)] else []
    | _ => []

/-- The bytes the transport of session `t` accepted in its life. -/
def sent_bytes (t : UInt32) : List Event → List Byte :=
  Runs.since (is_created t) fun
    | .sent u bytes => if u = t then bytes else []
    | _ => []

/-- An open starts every account of the tenure anew. -/
theorem since_opening {α : Type} (emit : Event → List α) (history : List Event) (t : UInt32) :
    Runs.since is_opened emit (history ++ opening t) = [] := by
  rw [opening, show history ++ [Event.discard t, Event.opened t]
    = (history ++ [.discard t]) ++ [.opened t] by simp, Runs.since_concat]
  rfl

/-! ## From the peer to the backend -/

/-- The inward account of a session. -/
structure Inward (k : Config) : Prop where
  bytes : k.party.owned = true → received_data k.party.token k.shared.history
    = accepted k.shared.history ++ k.shared.to_backend ++ k.party.held
  count : k.party.owned = true →
    k.shared.rx_bytes = min (2 ^ 64 - 1) (accepted k.shared.history).length

theorem held_of_not_serial {p : Party}
    (h : ¬ (p.decoder.state = .ready ∧ p.decoder.type = .serial)) : p.held = [] := by
  rw [Party.held, if_neg h]

/-- A saturating counter counts up to its maximum. -/
theorem add_min (n m : ℕ) : add (min (2 ^ 64 - 1) n) m = min (2 ^ 64 - 1) (n + m) := by
  unfold add
  split <;> omega

/-- What the decoder still holds splits where the stream takes its part. -/
theorem held_pull {p : Party} (hwf : p.decoder.Wf) (hr : p.decoder.state = .ready)
    (hs : p.decoder.type = .serial) {count : ℕ}
    (hcount : count = min Stream.capacity (p.decoder.size - 4 - p.data_offset)) :
    p.held = p.held.take count ++
      (if p.data_offset + count = p.decoder.size - 4 then
        { p with decoder := p.decoder.reset, data_offset := 0 }
      else { p with data_offset := p.data_offset + count } : Party).held := by
  have hlen : p.held.length = p.decoder.size - 4 - p.data_offset := by
    simp only [Party.held, hr, hs, and_self, if_true, List.length_drop, hwf.payload_length hr]
    omega
  split
  · rw [held_of_not_serial (p := { p with decoder := p.decoder.reset, data_offset := 0 })
      (by rintro ⟨h, -⟩; cases h), List.append_nil, List.take_of_length_le (by omega)]
  · have hnext : ({ p with data_offset := p.data_offset + count } : Party).held
        = p.held.drop count := by
      simp only [Party.held, hr, hs, and_self, if_true, List.drop_drop]
      rw [Nat.add_assoc]
    rw [hnext, List.take_append_drop]

/-- A frame that has just become READY is what the decoder then holds. -/
theorem held_feed {p : Party} {d : Decoder} (h0 : p.data_offset = 0) :
    ({ p with decoder := d } : Party).held
      = if d.state = .ready then data d.frame else [] := by
  by_cases hr : d.state = .ready
  · simp only [Party.held, hr, h0, true_and, if_true]
    rfl
  · simp only [Party.held, hr, false_and, if_false]

/-- The events the inward account is made of. -/
def moves_inward : Event → Bool
  | .opened _ | .received _ _ | .backend_write _ => true
  | _ => false

theorem received_data_quiet (t : UInt32) (history : List Event) {e : Event}
    (he : moves_inward e = false) : received_data t (history ++ [e]) = received_data t history := by
  rw [received_data, Runs.since_concat]
  cases e <;> simp_all [is_opened, moves_inward]

theorem accepted_quiet (history : List Event) {e : Event} (he : moves_inward e = false) :
    accepted (history ++ [e]) = accepted history := by
  rw [accepted, Runs.since_concat]
  cases e <;> simp_all [is_opened, moves_inward]

/-- An action that moves no inward byte keeps the account. -/
theorem Inward.quiet {k k' : Config} (h : Inward k) {e : Event} (he : moves_inward e = false)
    (hh : k'.shared.history = k.shared.history ++ [e]) (ht : k'.party.token = k.party.token)
    (ho : k'.party.owned = k.party.owned) (hb : k'.shared.to_backend = k.shared.to_backend)
    (hr : k'.shared.rx_bytes = k.shared.rx_bytes) (hd : k'.party.held = k.party.held) :
    Inward k' := by
  refine ⟨fun howned => ?_, fun howned => ?_⟩
  · rw [hh, ht, hb, hd, received_data_quiet _ _ he, accepted_quiet _ he]
    exact h.bytes (ho ▸ howned)
  · rw [hh, hr, accepted_quiet _ he]
    exact h.count (ho ▸ howned)

/-- **Every action keeps the inward account.** -/
theorem Inward.act {k k' : Config} (hact : Act k k') (hi : Inv k) (h : Inward k) : Inward k' := by
  cases hact with
  | feed p s bytes running incomplete =>
    have hinc : p.decoder.state ≠ .ready := by rw [incomplete]; decide
    -- nothing is held back while a frame is incomplete, so a feed that ends in `ready` adds its data
    have h0 : p.data_offset = 0 := hi.offset_eq_zero (.inl hinc)
    have hheld : p.held = [] := held_of_not_serial fun hr => hinc hr.1
    by_cases hready : (p.decoder.feed bytes).state = .ready
    · rw [if_pos hready]
      refine ⟨fun howned => ?_, fun howned => ?_⟩
      · have hb := h.bytes howned
        simp only [hheld, List.append_nil] at hb
        rw [held_feed h0, if_pos hready]
        simp only [received_data, accepted, Shared.log, Runs.since_concat, is_opened] at hb ⊢
        simp [hb]
      · simpa [accepted, Shared.log, Runs.since_concat, is_opened] using h.count howned
    · rw [if_neg hready, Shared.log, List.append_nil]
      refine ⟨fun howned => ?_, h.count⟩
      have hb := h.bytes howned
      rw [hheld] at hb
      rw [held_feed h0, if_neg hready]
      exact hb
  | send p s n running fits => exact h.quiet rfl rfl rfl rfl rfl rfl rfl
  | answer p s payload limit running ready control idle limit_ge limit_le fits buffer =>
    refine h.quiet rfl rfl rfl rfl rfl rfl ?_
    rw [held_of_not_serial (p := p) fun hr => ne_serial_of_control control hr.2]
    exact held_of_not_serial (by rintro ⟨hr, -⟩; cases hr)
  | acquire p s running token free ready control =>
    have hheld : ({ p with owned := true } : Party).held = [] :=
      held_of_not_serial fun hr => control hr.2
    refine ⟨fun _ => ?_, fun _ => ?_⟩
    · simp only [received_data, accepted, Shared.log, Shared.vacant, since_opening, hheld]
      rfl
    · simp only [accepted, Shared.log, Shared.vacant, since_opening]
      rfl
  | release p s owned => exact ⟨fun howned => (by cases howned), fun howned => (by cases howned)⟩
  | stop p s result limit unowned limit_ge limit_le terminal =>
    have hno : ¬ p.owned = true := by rw [unowned]; decide
    exact ⟨fun howned => absurd howned hno, fun howned => absurd howned hno⟩
  | pull p s count running owned empty ready serial count_eq =>
    have hb := h.bytes owned
    have hsplit := held_pull hi.wf ready serial count_eq
    refine ⟨fun _ => ?_, fun _ => h.count owned⟩
    simp only [empty, List.append_nil] at hb
    rw [hsplit, ← List.append_assoc] at hb
    refine Eq.trans ?_ hb
    split <;> rfl
  | push p s n running owned fits =>
    have hb := h.bytes owned
    have hc := h.count owned
    refine ⟨fun _ => ?_, fun _ => ?_⟩
    · simpa [received_data, accepted, Shared.log, Runs.since_concat, is_opened] using hb
    · simp only [accepted, Shared.log, Runs.since_concat, is_opened] at hc ⊢
      simp only [hc, add_min]
      simp [fits]
  | fetch p s bytes running owned empty fits => exact h.quiet rfl rfl rfl rfl rfl rfl rfl
  | emit p s running owned some_data idle => exact h.quiet rfl rfl rfl rfl rfl rfl rfl

section Foreign

/-! What another session does while this one owns the channel shows in none of this
one's accounts. -/

variable {t u : UInt32} (hne : u ≠ t) (history : List Event) {more : List Event}
  (hn : ∀ e ∈ more, by_token t e = true)
include hne hn

theorem received_data_foreign (hs : ∀ e ∈ more, sessional e = true) :
    received_data u (history ++ more) = received_data u history := by
  refine Runs.since_quiet _ _ _ _ fun e he => ?_
  have hn := hn e he
  have hs := hs e he
  cases e <;> simp_all [by_token, sessional, is_opened, hne.symm]

theorem queued_data_foreign (hs : ∀ e ∈ more, sessional e = true) :
    queued_data u (history ++ more) = queued_data u history := by
  refine Runs.since_quiet _ _ _ _ fun e he => ?_
  have hn := hn e he
  have hs := hs e he
  cases e <;> simp_all [by_token, sessional, is_opened, hne.symm]

theorem frames_foreign : frames u (history ++ more) = frames u history := by
  refine Runs.since_quiet _ _ _ _ fun e he => ?_
  have hn := hn e he
  cases e <;> simp_all [by_token, is_created, hne.symm]

theorem sent_bytes_foreign : sent_bytes u (history ++ more) = sent_bytes u history := by
  refine Runs.since_quiet _ _ _ _ fun e he => ?_
  have hn := hn e he
  cases e <;> simp_all [by_token, is_created, hne.symm]

omit hne hn in
theorem accepted_sessional (hs : ∀ e ∈ more, sessional e = true) :
    accepted (history ++ more) = accepted history := by
  refine Runs.since_quiet _ _ _ _ fun e he => ?_
  have hs := hs e he
  cases e <;> simp_all [sessional, is_opened]

omit hne hn in
theorem returned_sessional (hs : ∀ e ∈ more, sessional e = true) :
    returned (history ++ more) = returned history := by
  refine Runs.since_quiet _ _ _ _ fun e he => ?_
  have hs := hs e he
  cases e <;> simp_all [sessional, is_opened]

end Foreign

/-- Every action keeps the account of the bytes for the backend. -/
theorem inward_rule : System.Rule Inward (fun _ => True) where
  start := trivial
  act := fun hact hi h _ => ⟨h.act hact hi, trivial⟩
  other := by
    intro p s s' t more hseen hne hi h
    -- an owner sees nothing but foreign session events
    have hforeign : p.owned = true → s' = s.log more ∧ ∀ e ∈ more, sessional e = true := by
      intro howned
      have howner : s.owner = p.token := hi.owned_iff.mp howned
      exact hseen.foreign (by rw [howner]; exact hi.token) (by rw [howner]; exact hne)
    refine ⟨fun howned => ?_, fun howned => ?_⟩
    · obtain ⟨hs', hsess⟩ := hforeign howned
      simp only [hs', Shared.log, received_data_foreign hne _ hseen.named hsess,
        accepted_sessional _ hsess]
      exact h.bytes howned
    · obtain ⟨hs', hsess⟩ := hforeign howned
      simp only [hs', Shared.log, accepted_sessional _ hsess]
      exact h.count howned
  fresh := by
    intro p s _ _ _ howned
    have hno : ¬ p.owned = true := by rw [howned]; decide
    exact ⟨fun h => absurd h hno, fun h => absurd h hno⟩
  created := fun _ _ => trivial

section Peer

variable {β υ : Type} [StreamBackend β] [UploadService υ]

/-- **No byte from the peer is lost, duplicated, reordered or invented.** After every
run, for the session that owns the channel: the data of the serial frames it decoded
since the open are what the backend accepted, then what is pending for it, then what
the frame in the decoder still holds; and the channel counts what was accepted. -/
theorem peer_to_backend_integrity (b : β) (u : υ) (ops : List (Op β υ)) :
    let sys := System.after b u ops
    ∀ t s, sys.sessions t = some s → s.owned = true →
      received_data t sys.channel.history
        = accepted sys.channel.history ++ sys.channel.stream.to_backend.bytes ++ s.party.held ∧
      sys.channel.rx_bytes = min (2 ^ 64 - 1) (accepted sys.channel.history).length := by
  intro sys t s hs howned
  have h := inward_rule.after b u ops
  have htoken : s.owner = t := h.ok.token hs
  obtain ⟨hbytes, hcount⟩ := h.each hs
  rw [← htoken]
  exact ⟨hbytes howned, hcount howned⟩

end Peer

/-- A session opens a loopback and sends it two bytes. -/
def loopback_run : List (Op Loopback NoUpload) :=
  System.opening_run ++ System.deliver 1 ⟨.serial, 0, bytes32_be 1 ++ ascii "hi"⟩

/-- The backend has them. -/
theorem peer_to_backend_integrity_loopback :
    ∃ s, (System.after {} {} loopback_run).sessions 1 = some s ∧ s.owned = true ∧
      received_data 1 (System.after {} {} loopback_run).channel.history
        = accepted (System.after {} {} loopback_run).channel.history
          ++ (System.after {} {} loopback_run).channel.stream.to_backend.bytes ++ s.party.held ∧
      accepted (System.after {} {} loopback_run).channel.history = ascii "hi" := by
  have hlive : ((System.after {} {} loopback_run).sessions 1).map (·.owned) = some true := by
    decide +kernel
  have haccepted : accepted (System.after {} {} loopback_run).channel.history = ascii "hi" := by
    decide +kernel
  rw [Option.map_eq_some_iff] at hlive
  obtain ⟨s, hs, howned⟩ := hlive
  have h := peer_to_backend_integrity {} {} loopback_run
  exact ⟨s, hs, howned, (h 1 s hs howned).1, haccepted⟩

end Firmingo
