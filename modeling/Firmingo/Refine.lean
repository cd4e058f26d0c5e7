/-
The code refines the machine: a call of `Session::poll` or `Session::close` is a
run of actions.

`Ctx.config` is the abstraction. Every reply path of `Session::dispatch` ends in
one of two ways, a queued response or a finished session, and both leave the same
kind of trace however the reply was formatted; `Behind` says what such a path may
have changed before it ends (only the decoder, and of it only the limit), so each
path costs one line. The stream's pump is followed half by half.
-/
import Firmingo.Errands
import Firmingo.Machine

set_option autoImplicit false

open Octets

namespace Firmingo

open Protocol Machine

variable {β υ : Type}

/-! ## The abstraction -/

def Session.party (s : Session) : Party :=
  ⟨s.owner, s.decoder, s.output, s.data_offset, s.owned, s.result⟩

def Channel.shared (c : Channel β) : Shared :=
  ⟨c.stream.owner, c.stream.to_backend.bytes, c.stream.to_peer.bytes, c.rx_bytes, c.tx_bytes,
    c.history⟩

def Ctx.config (c : Ctx β υ) : Config := ⟨c.session.party, c.channel.shared⟩

variable [StreamBackend β] [UploadService υ]

/-! ## The channel's own calls -/

theorem Channel.retire_shared (c : Channel β) (t : UInt32) :
    (c.retire t).shared = c.shared.log (ending t) := by
  simp [Channel.retire, Channel.call_closed, Channel.call_discard, Channel.record, Channel.shared,
    Shared.log, ending]

/-- The owner's release. -/
theorem Channel.release_shared {c : Channel β} {t : UInt32} (h0 : t ≠ 0) (h : c.stream.owner = t) :
    (c.release t).shared = c.shared.vacant.log (ending t) := by
  have hclose : c.stream.close t = (.ok, c.stream.clear) := by
    simp [Stream.close, h0, h]
  simp only [Channel.release, hclose, if_true]
  rw [Channel.retire_shared]
  rfl

/-- Anyone else's. -/
theorem Channel.release_eq_self {c : Channel β} {t : UInt32} (h : t ≠ c.stream.owner) :
    c.release t = c := by
  have hclose : c.stream.close t = (.invalid_owner, c.stream) := by
    simp [Stream.close, h]
  simp [Channel.release, hclose]

/-- The configuration step touches the backend only. -/
theorem Channel.acquire_configure_shared (c : Channel β)
    (configuration : Option SerialConfiguration) :
    (c.acquire_configure configuration).2.shared = c.shared := by
  cases configuration <;> rfl

theorem Channel.configure_shared (c : Channel β) (t : UInt32) (configuration : SerialConfiguration) :
    (c.configure t configuration).2.shared = c.shared := by
  unfold Channel.configure
  split
  · rfl
  · split <;> rfl

/-- The stream of a backend-only change is the same stream. -/
theorem Channel.acquire_configure_stream (c : Channel β)
    (configuration : Option SerialConfiguration) :
    (c.acquire_configure configuration).2.stream = c.stream := by
  cases configuration <;> rfl

/-- An acquire either succeeds on a free channel or shows nothing but the backend's
own state. -/
theorem Channel.acquire_shared (c : Channel β) {t : UInt32} (h0 : t ≠ 0) (now : UInt32)
    (configuration : Option SerialConfiguration) :
    (c.acquire t now configuration).1 ≠ .ok ∧ (c.acquire t now configuration).2.shared = c.shared ∨
    (c.acquire t now configuration).1 = .ok ∧ c.stream.owner = 0 ∧
      (c.acquire t now configuration).2.shared
        = { c.shared.vacant with owner := t, rx_bytes := 0, tx_bytes := 0 }.log (opening t) := by
  have hresult : ∀ r : BackendResult, r ≠ .ok → stream_result r ≠ .ok := by
    intro r hr
    cases r <;> simp_all [stream_result]
  have hshared := c.acquire_configure_shared configuration
  have hstream := c.acquire_configure_stream configuration
  unfold Channel.acquire
  split
  · exact .inl ⟨by simp, rfl⟩
  rename_i hfree
  rw [not_not] at hfree
  simp only
  generalize c.acquire_configure configuration = configured at hshared hstream ⊢
  obtain ⟨configured, c1⟩ := configured
  simp only at hshared hstream ⊢
  split
  · rename_i hc
    exact .inl ⟨hresult _ hc, hshared⟩
  generalize StreamBackend.prepare_open c1.backend = prepared
  obtain ⟨prepared, b⟩ := prepared
  simp only
  split
  · rename_i hp
    exact .inl ⟨hresult _ hp, hshared⟩
  have hopen : c1.stream.open_for t now
      = (.ok, { c1.stream.clear with owner := t, last_progress := now }) := by
    simp [Stream.open_for, h0, hstream, hfree]
  refine .inr ?_
  rw [hopen]
  refine ⟨rfl, hfree, ?_⟩
  rw [← hshared]
  simp [Channel.call_discard, Channel.call_opened, Channel.record, Channel.shared, Shared.log,
    Shared.vacant, opening]

namespace Ctx

/-! ## Ending a session -/

/-- The release half of `close` is a release, if there is something to release. -/
theorem let_go_acts {c : Ctx β υ} (hi : Inv c.config) : InnerActs c.config c.let_go.config := by
  cases howned : c.session.owned with
  | false =>
    have : c.let_go.config = c.config := by
      simp [let_go, config, Session.party, howned]
    rw [this]
  | true =>
    have howner : c.channel.stream.owner = c.session.owner := hi.owned_iff.mp howned
    have : c.let_go.config = ⟨{ c.session.party with owned := false },
        c.channel.shared.vacant.log (ending c.session.owner)⟩ := by
      rw [← Channel.release_shared (t := c.session.owner) hi.token howner]
      simp only [let_go, config, howned, if_true]
      rfl
    rw [this]
    exact .single ⟨.release _ _ howned, _, rfl, by simp [ending, arrives]⟩

/-- A path of `dispatch` on its way to a reply, started at `k`: nothing has changed
but the decoder, and of its next state only the limit. -/
structure Behind (k : Config) (c : Ctx β υ) : Prop where
  shared : c.channel.shared = k.shared
  party : c.session.party = { k.party with decoder := c.session.decoder }
  decoder : c.session.decoder.reset = { k.party.decoder.reset with limit := c.limit }
  limit_ge : min_offer ≤ c.limit
  limit_le : c.limit ≤ max_payload

omit [StreamBackend β] [UploadService υ] in
theorem Behind.refl {c : Ctx β υ} (hi : Inv c.config) : Behind c.config c :=
  ⟨rfl, rfl, rfl, hi.wf.limit_ge, hi.wf.limit_le⟩

omit [StreamBackend β] [UploadService υ] in
/-- What the upload service and the backend keep to themselves does not show. -/
theorem behind_upload {c : Ctx β υ} (hi : Inv c.config) (upload : υ) :
    Behind c.config ({ c with upload := upload } : Ctx β υ) :=
  ⟨rfl, rfl, rfl, hi.wf.limit_ge, hi.wf.limit_le⟩

omit [StreamBackend β] [UploadService υ] in
theorem behind_channel {c : Ctx β υ} (hi : Inv c.config) {channel : Channel β}
    (h : channel.shared = c.channel.shared) :
    Behind c.config ({ c with channel := channel } : Ctx β υ) :=
  ⟨h, rfl, rfl, hi.wf.limit_ge, hi.wf.limit_le⟩

/-- The state `finish` leaves. -/
theorem finish_config (c : Ctx β υ) (result : SessionResult) :
    (c.finish result).config = ⟨⟨c.session.owner, c.session.decoder.reset, [], 0, false, result⟩,
      c.let_go.channel.shared⟩ := rfl

/-- A path may end the session instead of replying. -/
theorem Behind.finish {k : Config} {c : Ctx β υ} (h : Behind k c) (hi : Inv k)
    {result : SessionResult} (hr : result ≠ .running) : InnerActs k (c.finish result).config := by
  have htoken : c.session.owner = k.party.token := congrArg Party.token h.party
  have howned : c.session.owned = k.party.owned := congrArg Party.owned h.party
  have howner : c.channel.stream.owner = k.shared.owner := congrArg Shared.owner h.shared
  rw [finish_config, h.decoder, htoken]
  obtain ⟨p, s⟩ := k
  simp only at htoken howned howner
  cases hown : p.owned with
  | false =>
    have hs : c.let_go.channel.shared = s := by
      simpa [let_go, howned, hown] using h.shared
    rw [hs, ← hown]
    exact .single ⟨.stop p s result c.limit hown h.limit_ge h.limit_le hr, [], by simp, by simp⟩
  | true =>
    have hs : c.let_go.channel.shared = s.vacant.log (ending p.token) := by
      have hp : s.owner = p.token := hi.owned_iff.mp hown
      have := Channel.release_shared (c := c.channel) hi.token (howner.trans hp)
      simpa [let_go, howned, hown, htoken, h.shared] using this
    rw [hs]
    exact .tail (.single ⟨.release p s hown, _, rfl, by simp [ending, arrives]⟩)
      ⟨.stop { p with owned := false } _ result c.limit rfl h.limit_ge h.limit_le hr, [], by simp,
        by simp⟩

/-- `finish` from any state. -/
theorem finish_inner {c : Ctx β υ} (hi : Inv c.config) {result : SessionResult}
    (hr : result ≠ .running) : InnerActs c.config (c.finish result).config :=
  (Behind.refl hi).finish hi hr

theorem finish_acts {c : Ctx β υ} (hi : Inv c.config) {result : SessionResult}
    (hr : result ≠ .running) : Acts c.config (c.finish result).config :=
  (finish_inner hi hr).acts

/-- `close` is a `finish` that keeps a terminal result. -/
theorem close_acts {c : Ctx β υ} (hi : Inv c.config) : Acts c.config c.close.config := by
  by_cases hr : c.session.result = .running
  · have : c.close.config = (c.finish .closed).config := by
      simp [close, finish, config, Session.party, let_go, hr]
    rw [this]
    exact finish_acts hi (by decide)
  · have : c.close.config = (c.finish c.session.result).config := by
      simp [close, finish, config, Session.party, let_go, hr]
    rw [this]
    exact finish_acts hi hr

/-! ## Replies -/

/-- The moment a control frame can be answered. -/
structure Answerable (k : Config) : Prop where
  running : k.party.result = .running
  ready : k.party.decoder.state = .ready
  control : k.party.decoder.type = .request ∨ k.party.decoder.type = .upload
  idle : k.party.output = []

omit [StreamBackend β] [UploadService υ] in
theorem closing_config (c : Ctx β υ) (now : UInt32) :
    ({ c with session := { c.session with closing := true, closing_at := now } } : Ctx β υ).config
      = c.config := rfl

namespace Behind

variable {k : Config} {c : Ctx β υ}

/-- A path that finishes instead of replying. -/
theorem give_up (h : Behind k c) (hi : Inv k) :
    InnerActs k (c.finish .io_error).reset_decoder.config := by
  change InnerActs k (c.finish .io_error).config
  exact h.finish hi (by decide)

variable {id : ℕ} (hid : id = k.party.decoder.request)
include hid

/-- A reply is an answer of the machine, or ends the session. -/
theorem say (h : Behind k c) (hi : Inv k) (ha : Answerable k) (reply : Reply) :
    InnerActs k (c.say id reply).reset_decoder.config := by
  subst hid
  rcases c.say_cases k.party.decoder.request reply with hq | ⟨-, hlim, hbuf, hq⟩
  · rw [hq]
    exact h.give_up hi
  generalize reply.payload c.limit = payload at hlim hbuf hq
  have htoken : c.session.owner = k.party.token := congrArg Party.token h.party
  have hoff : c.session.data_offset = k.party.data_offset := congrArg Party.data_offset h.party
  have howned : c.session.owned = k.party.owned := congrArg Party.owned h.party
  have hres : c.session.result = k.party.result := congrArg Party.result h.party
  have hconfig : (c.holding ⟨.response, k.party.decoder.request, payload⟩).reset_decoder.config
      = ⟨{ k.party with
          decoder := { k.party.decoder.reset with limit := c.limit }
          output := wire ⟨.response, k.party.decoder.request, payload⟩ },
        k.shared.log [.queued k.party.token ⟨.response, k.party.decoder.request, payload⟩
          c.limit]⟩ := by
    rw [← h.decoder, ← htoken, ← h.shared]
    dsimp only
    rw [← htoken, ← hoff, ← howned, ← hres]
    rfl
  rw [hq, hconfig]
  exact .single ⟨.answer k.party k.shared payload c.limit ha.running ha.ready ha.control ha.idle
    h.limit_ge h.limit_le hlim hbuf, _, rfl, by simp [arrives]⟩

theorem settle (h : Behind k c) (hi : Inv k) (ha : Answerable k) (now : UInt32) (o : Outcome) :
    InnerActs k (c.settle now id o).config := by
  cases o with
  | replied turn reply =>
    -- the last line of `dispatch` also turns `data_turn_`, which does not show
    cases turn <;> exact h.say hid hi ha reply
  | dismissed =>
    have hreply := h.say hid hi ha (.error "invalid_argument")
    unfold Ctx.settle
    rw [closing_config]
    exact hreply.trans (let_go_acts (Acts.inv hreply.acts hi))
  | abandoned => exact h.finish hi (by decide)

end Behind

/-! ## Dispatch -/

/-- The hello's new limit is within the bounds of every limit. -/
theorem behind_hello {c : Ctx β υ} (hi : Inv c.config) (now : UInt32) (offer : ℕ) :
    Behind c.config (c.perform now (some (.negotiate offer))) := by
  unfold perform
  simp only
  split
  · exact ⟨rfl, rfl, rfl, hi.wf.limit_ge, hi.wf.limit_le⟩
  next d hd =>
  have hwf := Decoder.Wf.negotiate hd
  obtain ⟨rfl, -, -⟩ := Decoder.negotiate_eq hd
  exact ⟨rfl, rfl, rfl, hwf.limit_ge, hwf.limit_le⟩

/-- What an errand has done by the time of the reply: an acquire and a release are actions of
their own, and nothing else shows. -/
theorem perform_behind {c : Ctx β υ} (hi : Inv c.config) (ha : Answerable c.config) (now : UInt32)
    (memory : Option MemorySamples) :
    ∃ k, InnerActs c.config k ∧ Inv k ∧ Answerable k ∧
      c.session.decoder.request = k.party.decoder.request ∧
      Behind k (c.perform now (c.errand memory)) := by
  -- the errands that only the backend or the service sees
  have hquiet : ∀ {c0 : Ctx β υ}, Behind c.config c0 → ∃ k, InnerActs c.config k ∧ Inv k ∧
      Answerable k ∧ c.session.decoder.request = k.party.decoder.request ∧ Behind k c0 :=
    fun hb => ⟨c.config, .refl, hi, ha, rfl, hb⟩
  rcases he : c.errand memory with _ | e
  · exact hquiet (Behind.refl hi)
  have hpermits := errand_permitted he
  cases e with
  | service call => exact hquiet (behind_upload hi _)
  | status id => exact hquiet (Behind.refl hi)
  | negotiate offer => exact hquiet (behind_hello hi now offer)
  | configure configuration => exact hquiet (behind_channel hi (c.channel.configure_shared _ _))
  | report => exact hquiet (behind_channel hi rfl)
  | acquire configuration =>
    simp only [perform]
    rcases c.channel.acquire_shared (t := c.session.owner) hi.token now configuration with
      ⟨hne, hs⟩ | ⟨hok, hfree, hs⟩
    · rw [decide_eq_false hne, Bool.or_false]
      exact hquiet (behind_channel hi hs)
    · have hact := Act.acquire c.session.party c.channel.shared ha.running hi.token hfree ha.ready
        (ne_serial_of_control ha.control)
      rw [decide_eq_true hok, Bool.or_true]
      exact ⟨_, .single ⟨hact, _, rfl, by simp [opening, arrives]⟩, hact.inv hi,
        ⟨ha.running, ha.ready, ha.control, ha.idle⟩, rfl, hs, rfl, rfl, hi.wf.limit_ge, hi.wf.limit_le⟩
  | release =>
    have hact := Act.release c.session.party c.channel.shared hpermits
    have hs := Channel.release_shared (t := c.session.owner) hi.token (hi.owned_iff.mp hpermits)
    exact ⟨_, .single ⟨hact, _, rfl, by simp [ending, arrives]⟩, hact.inv hi,
      ⟨ha.running, ha.ready, ha.control, ha.idle⟩, rfl, hs, rfl, rfl, hi.wf.limit_ge, hi.wf.limit_le⟩

/-- **Dispatching a READY frame is a run of actions.** A control frame is dispatched
with the output empty. -/
theorem dispatch_inner {c : Ctx β υ} (hi : Inv c.config) (hrun : c.session.result = .running)
    (hready : c.session.decoder.state = .ready)
    (hidle : c.session.decoder.type ≠ .serial → c.session.output = []) (now : UInt32)
    (memory : Option MemorySamples) : InnerActs c.config (c.dispatch now memory).config := by
  by_cases hcontrol : c.session.decoder.type = .request ∨ c.session.decoder.type = .upload
  · obtain ⟨o, -, heq⟩ := dispatch_settles now memory hcontrol
    have ha : Answerable c.config :=
      ⟨hrun, hready, hcontrol, hidle (ne_serial_of_control hcontrol)⟩
    obtain ⟨k, hacts, hik, hak, hid, hb⟩ := perform_behind hi ha now memory
    rw [heq]
    exact hacts.trans (hb.settle hid hik hak now o)
  rcases dispatch_other now memory hcontrol with heq | ⟨result, hne, heq⟩
  · rw [heq]
  · rw [heq]
    exact finish_inner hi hne

theorem dispatch_acts {c : Ctx β υ} (hi : Inv c.config) (hrun : c.session.result = .running)
    (hready : c.session.decoder.state = .ready)
    (hidle : c.session.decoder.type ≠ .serial → c.session.output = []) (now : UInt32)
    (memory : Option MemorySamples) : Acts c.config (c.dispatch now memory).config :=
  (dispatch_inner hi hrun hready hidle now memory).acts

end Ctx

end Firmingo
