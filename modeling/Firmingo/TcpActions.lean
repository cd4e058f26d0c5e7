/-
The TCP server as a run of its sessions.

Whatever the server does, it does to the sessions in four ways: it constructs one in a slot that
has none, destroys one, polls one, or leaves them all alone while connections, counters and the
trace change. Every function of the server is a sequence of such actions. So a run of the server
is a run of the `System`, and what is proved for every system of sessions holds for the sessions
behind the two sockets.
-/
import Firmingo.Deadlines
import Firmingo.TcpServer

set_option autoImplicit false

open Octets

namespace Firmingo

open Tcp Protocol Machine

namespace Tcp

/-- An event that neither begins nor ends nor polls a session. -/
def Event.quiet : Event → Bool
  | .constructed _ _ _ | .polled _ | .destroyed _ => false
  | _ => true

/-- A trace goes on without a session. -/
def Silent (l l' : List Event) : Prop := ∃ es, l' = l ++ es ∧ ∀ e ∈ es, e.quiet = true

theorem Silent.refl (l : List Event) : Silent l l := ⟨[], by simp, nofun⟩

variable {l : List Event}

theorem Silent.concat {l' : List Event} (h : Silent l l') {e : Event} (he : e.quiet = true) :
    Silent l (l' ++ [e]) := by
  obtain ⟨es, rfl, hes⟩ := h
  refine ⟨es ++ [e], by simp, ?_⟩
  intro x hx
  rcases List.mem_append.mp hx with hx | hx
  · exact hes x hx
  · rw [List.mem_singleton.mp hx]
    exact he

theorem Silent.trans {l' l'' : List Event} (h : Silent l l') (h' : Silent l' l'') : Silent l l'' := by
  obtain ⟨es, rfl, hes⟩ := h
  obtain ⟨es', rfl, hes'⟩ := h'
  refine ⟨es ++ es', by simp, ?_⟩
  intro x hx
  rcases List.mem_append.mp hx with hx | hx
  · exact hes x hx
  · exact hes' x hx

/-! ## What the functions on a connection add to the trace -/

variable {t : Link}

theorem silent_call (h : Silent l t.trace) (p : Pcb) (c : Call) :
    Silent l (t.call p c).trace := h.concat rfl

theorem silent_detach (h : Silent l t.trace) (p : Pcb) : Silent l (t.detach p).trace :=
  silent_call (silent_call (silent_call (silent_call h p _) p _) p _) p _

theorem silent_attach (h : Silent l t.trace) (p : Pcb) (k : Slot) : Silent l (t.attach p k).trace :=
  silent_call (silent_call (silent_call (silent_call h p _) p _) p _) p _

theorem silent_discard_packet (h : Silent l t.trace) : Silent l t.discard_packet.trace := by
  rw [discard_packet_state]
  cases t.connection.packet with
  | none => exact h
  | some b => exact h.concat rfl

theorem silent_abort_pcb (h : Silent l t.trace) : Silent l t.abort_pcb.trace := by
  unfold Link.abort_pcb
  split
  · exact h
  · next p _ =>
    have hlost : Silent l ({ t with connection := { t.connection with pcb := none } } : Link).trace := h
    exact silent_call (silent_detach hlost p) p _

end Tcp

namespace TcpSessionServer

variable {β υ ο : Type}

/-- The sessions, and what they share, are left alone. -/
structure Quiet (srv srv' : TcpSessionServer β υ) : Prop where
  sys : srv'.sys = srv.sys
  has_upload : srv'.has_upload = srv.has_upload
  trace : Silent srv.trace srv'.trace

theorem Quiet.refl (srv : TcpSessionServer β υ) : Quiet srv srv := ⟨rfl, rfl, .refl _⟩

variable {srv srv' srv'' : TcpSessionServer β υ}

theorem Quiet.trans (h : Quiet srv srv') (h' : Quiet srv' srv'') : Quiet srv srv'' :=
  ⟨h'.sys.trans h.sys, h'.has_upload.trans h.has_upload, h.trace.trans h'.trace⟩

/-! ## Functions that leave the sessions alone -/

variable (srv) (k : Slot) (p : Pcb)

theorem quiet_log {e : Tcp.Event} (he : e.quiet = true) : Quiet srv (srv.log e) :=
  ⟨rfl, rfl, (Silent.refl _).concat he⟩

theorem quiet_set (f : Connection → Connection) : Quiet srv (srv.set k f) := ⟨rfl, rfl, .refl _⟩

theorem quiet_on {f : Tcp.Link → Tcp.Link} (hf : ∀ t : Tcp.Link, Silent t.trace (f t).trace) :
    Quiet srv (srv.on k f) := ⟨rfl, rfl, hf (srv.link k)⟩

theorem quiet_call (c : Call) : Quiet srv (srv.on k (·.call p c)) :=
  quiet_on srv k fun _ => silent_call (.refl _) p c

theorem quiet_abort_pcb : Quiet srv (srv.on k Tcp.Link.abort_pcb) :=
  quiet_on srv k fun _ => silent_abort_pcb (.refl _)

theorem quiet_discard_packet : Quiet srv (srv.on k Tcp.Link.discard_packet) :=
  quiet_on srv k fun _ => silent_discard_packet (.refl _)

theorem quiet_hang_up (answer : Err) : Quiet srv (srv.hang_up k p answer) := by
  refine quiet_on srv k fun t => ?_
  refine silent_call (silent_detach (silent_discard_packet ?_) p) p _
  cases t.connection.packet with
  | none => exact .refl _
  | some b => exact silent_call ((Silent.refl t.trace).concat rfl) p _

theorem quiet_accept (pcb : Option Pcb) (error : Err) (clock : UInt32) :
    Quiet srv (srv.accept pcb error clock).2 := by
  unfold accept
  cases pcb with
  | none => exact .refl srv
  | some p =>
    have hoffered : Quiet srv (srv.log (.offered p)) := quiet_log srv rfl
    simp only
    split
    · next k _ =>
      refine hoffered.trans ?_
      have hset := quiet_set (srv.log (.offered p)) k fun c =>
        { c with
          replacing := c.occupied
          occupied := true
          server := true
          pcb := some p
          accepted_at := clock }
      have hon := hset.trans (quiet_on _ k (f := fun t => (t.attach p k).call p .nagle_disable)
        fun _ => silent_call (silent_attach (.refl _) p k) p _)
      exact ⟨hon.sys, hon.has_upload, hon.trace.concat rfl⟩
    · exact hoffered.trans (quiet_log _ rfl)

theorem quiet_receive (packet : Option Pbuf) (error : Err) :
    Quiet srv (srv.receive k p packet error).2 := by
  have hgiven : Quiet srv (srv.log (.receiving p packet)) := quiet_log srv rfl
  unfold receive
  simp only
  cases packet with
  | none => exact (hgiven.trans (quiet_abort_pcb _ k)).trans (quiet_log _ rfl)
  | some b =>
    simp only
    split
    · exact ((hgiven.trans (quiet_log _ rfl)).trans (quiet_abort_pcb _ k)).trans (quiet_log _ rfl)
    split
    · exact hgiven.trans (quiet_log _ rfl)
    · have hkept := hgiven.trans
        (quiet_set (srv.log (.receiving p (some b))) k fun c => { c with packet := some b })
      simp only
      split
      · exact ⟨hkept.sys, hkept.has_upload, (hkept.trace.concat rfl).concat rfl⟩
      · exact hkept.trans (quiet_log _ rfl)

theorem quiet_failed : Quiet srv (srv.failed k p) := by
  have hlog : Silent srv.trace (srv.trace ++ [Tcp.Event.failed p]) := (Silent.refl _).concat rfl
  unfold failed
  simp only
  split
  · exact ⟨rfl, rfl, hlog⟩
  · exact ⟨rfl, rfl, hlog⟩

theorem quiet_sent (bytes : UInt16) : Quiet srv (srv.sent k bytes) := by
  unfold sent
  simp only
  split
  · exact ⟨rfl, rfl, .refl _⟩
  · exact ⟨rfl, rfl, .refl _⟩

/-- **No callback touches a session.** -/
theorem quiet_callback (c : Callback) : Quiet srv (srv.callback c) := by
  unfold callback
  split
  · exact .refl srv
  cases c with
  | accept pcb error clock => exact quiet_accept srv pcb error clock
  | receive p packet error =>
    simp only
    cases (account srv.trace p).arg with
    | none => exact .refl srv
    | some k => exact quiet_receive srv k p packet error
  | failed p =>
    simp only
    cases (account srv.trace p).arg with
    | none => exact .refl srv
    | some k => exact quiet_failed srv k p
  | sent p bytes =>
    simp only
    cases (account srv.trace p).arg with
    | none => exact .refl srv
    | some k => exact quiet_sent srv k bytes

theorem quiet_callbacks (cs : List Callback) : Quiet srv (cs.foldl callback srv) := by
  induction cs generalizing srv with
  | nil => exact .refl srv
  | cons c cs ih => exact (quiet_callback srv c).trans (ih _)

theorem quiet_begin (identity : Identity) (clock created bound listened : Bool) :
    Quiet srv (srv.begin identity clock created bound listened).2 := by
  unfold begin
  split
  · exact .refl srv
  split
  · exact .refl srv
  split
  · exact .refl srv
  split
  · exact .refl srv
  · exact ⟨rfl, rfl, .refl _⟩

/-! ## Functions that begin, end or poll a session -/

variable [StreamBackend β] [UploadService υ]

/-- What a server does to its sessions at a time. -/
inductive Action : TcpSessionServer β υ → TcpSessionServer β υ → Prop
  | quiet {srv srv' : TcpSessionServer β υ} (h : Quiet srv srv') : Action srv srv'
  | construct (srv : TcpSessionServer β υ) (k : Slot) (vacant : srv.session k = none) :
      Action srv (srv.construct k)
  | destroy (srv : TcpSessionServer β υ) (k : Slot) : Action srv (srv.destroy k)
  | poll (srv : TcpSessionServer β υ) (k : Slot) (s : Session) (live : srv.session k = some s)
      (now : UInt32) (memory : Option MemorySamples) (a : Tcp.Answers) :
      Action srv (srv.poll_session k s now memory a).2

/-- A sequence of actions. -/
abbrev Acts : TcpSessionServer β υ → TcpSessionServer β υ → Prop := Relation.ReflTransGen Action

variable {srv}

theorem Quiet.acts (h : Quiet srv srv') : Acts srv srv' := .single (.quiet h)

theorem Acts.quiet (h : Acts srv srv') (h' : Quiet srv' srv'') : Acts srv srv'' := h.tail (.quiet h')

variable (srv) (now : UInt32) (memory : Option MemorySamples) (a : Tcp.Answers)

theorem acts_destroy : Acts srv (srv.destroy k) := .single (.destroy srv k)

theorem acts_clear : Acts srv (srv.clear k) := by
  have hdestroyed : Acts srv (srv.destroy k) := acts_destroy srv k
  refine hdestroyed.quiet ?_
  refine (quiet_abort_pcb (srv.destroy k) k).trans ?_
  refine (quiet_discard_packet ((srv.destroy k).on k Tcp.Link.abort_pcb) k).trans ?_
  exact (quiet_set _ k _).trans (quiet_log _ rfl)

theorem acts_close : Acts srv (srv.close k now a) := by
  unfold close
  split
  · exact acts_clear srv k
  next p _ =>
  split
  · exact acts_clear srv k
  split
  · exact (quiet_call srv k p .output).acts
  have hhung := quiet_hang_up srv k p a.close
  simp only
  split
  · have hlost := hhung.trans (quiet_set (srv.hang_up k p a.close) k fun c => { c with pcb := none })
    exact hlost.acts.trans (acts_clear _ k)
  · exact (hhung.trans (quiet_on _ k fun _ => silent_attach (.refl _) p k)).acts
  · exact hhung.acts.trans (acts_clear _ k)

theorem acts_dispose : Acts srv (srv.dispose k) := by
  unfold dispose
  split
  · have hdestroyed : Acts srv (srv.destroy k) := acts_destroy srv k
    exact hdestroyed.quiet ((quiet_discard_packet _ k).trans (quiet_set _ k _))
  · exact .refl

theorem acts_tidy : Acts srv (srv.tidy k) := by
  have hdisposed : Acts srv (srv.dispose k) := acts_dispose srv k
  unfold tidy
  simp only
  split
  · exact hdisposed.trans (acts_clear _ k)
  · exact hdisposed

theorem acts_conclude (result : SessionResult) :
    Acts srv (srv.conclude k now a result) := by
  unfold conclude
  split
  · exact acts_clear srv k
  next p _ =>
  split
  · have hdestroyed : Acts srv (srv.destroy k) := acts_destroy srv k
    have hclosing := hdestroyed.quiet
      (quiet_set (srv.destroy k) k fun c => { c with closing := true, closing_at := now })
    exact hclosing.trans (acts_close _ k now a)
  · exact (quiet_call srv k p .output).acts

theorem acts_serve : Acts srv (srv.serve k now memory a) := by
  have hpoll : ∀ x : TcpSessionServer β υ, Acts x ((x.session k).elim x fun s =>
      (x.poll_session k s now memory a).2.conclude k now a (x.poll_session k s now memory a).1) := by
    intro x
    cases hs : x.session k with
    | none => exact .refl
    | some s =>
      have hpolled : Acts x (x.poll_session k s now memory a).2 :=
        .single (.poll x k s hs now memory a)
      exact hpolled.trans (acts_conclude _ k now a _)
  unfold serve
  split
  · exact .refl
  split
  · exact acts_close srv k now a
  simp only
  split
  · next hnone =>
    have hmade : Acts srv (srv.construct k) :=
      .single (.construct srv k (Option.isNone_iff_eq_none.mp hnone))
    exact hmade.trans (hpoll _)
  · exact hpoll srv

/-- **A poll is a sequence of actions.** -/
theorem acts_poll (timeouts : List Callback) (answers : Slot → Tcp.Answers) :
    Acts srv (srv.poll now memory timeouts answers) := by
  have hcalled : Acts srv (timeouts.foldl callback srv) := (quiet_callbacks srv timeouts).acts
  exact (((hcalled.trans (acts_tidy _ 0)).trans (acts_tidy _ 1)).trans
    (acts_serve _ 0 now memory _)).trans (acts_serve _ 1 now memory _)

variable {srv}

/-- What is not the server's own doing: the backend and the upload service change by
themselves. -/
def Op.outside : Op β ο → Option (β ⊕ ο)
  | .backend b => some (.inl b)
  | .service move => some (.inr move)
  | _ => none

/-- **Every other operation on a server is a sequence of actions.** -/
theorem acts_step (service : υ → ο → υ) (srv : TcpSessionServer β υ) {o : Op β ο}
    (hown : o.outside = none) : Acts srv (srv.step service o) := by
  cases o with
  | begin identity clock created bound listened =>
    exact (quiet_begin srv identity clock created bound listened).acts
  | callback c => exact (quiet_callback srv c).acts
  | poll now memory timeouts answers => exact acts_poll srv now memory timeouts answers
  | stop =>
    have hcleared : Acts srv ((srv.clear 0).clear 1) := (acts_clear srv 0).trans (acts_clear _ 1)
    exact hcleared.quiet ⟨rfl, rfl, .refl _⟩
  | backend b => cases hown
  | service move => cases hown

/-! ## The sessions of a server are a system -/

/-- What happens to the sessions behind a server. It constructs, polls and destroys the
session of a slot, and nothing else; the backend and the service may change. -/
inductive Deed (β ο : Type)
  | construct (k : Slot) (now : UInt32) (identity : Identity)
  | poll (k : Slot) (input : PollInput)
  | destroy (k : Slot)
  | backend (b : β)
  | service (move : ο)

namespace Deed

/-- As an operation on the system: a slot's session has the slot's token. -/
def op (service : υ → ο → υ) (has_upload : Bool) (sys : System β υ) : Deed β ο → Firmingo.Op β υ
  | .construct k now identity => .construct (token k) now identity has_upload
  | .poll k input => .poll (token k) input
  | .destroy k => .destroy (token k)
  | .backend b => .backend b
  | .service move => .upload (service sys.upload move)

/-- As operations, one after the other. -/
def ops (service : υ → ο → υ) (has_upload : Bool) :
    System β υ → List (Deed β ο) → List (Firmingo.Op β υ)
  | _, [] => []
  | sys, d :: ds =>
    d.op service has_upload sys :: ops service has_upload (sys.step (d.op service has_upload sys)) ds

def outside : Deed β ο → Option (β ⊕ ο)
  | .backend b => some (.inl b)
  | .service move => some (.inr move)
  | _ => none

theorem ops_append (service : υ → ο → υ) (has_upload : Bool) (sys : System β υ) (ds ds' : List (Deed β ο)) :
    ops service has_upload sys (ds ++ ds') = ops service has_upload sys ds ++
      ops service has_upload (Runs.run System.step sys (ops service has_upload sys ds)) ds' := by
  induction ds generalizing sys with
  | nil => rfl
  | cons d ds ih =>
    simp only [List.cons_append, ops]
    rw [ih]
    rfl

end Deed

theorem poll_session_sys {k : Slot} {s : Session} (live : srv.session k = some s) (now : UInt32)
    (memory : Option MemorySamples) (a : Tcp.Answers) :
    ∃ input, (srv.poll_session k s now memory a).2.sys = srv.sys.step (.poll (token k) input) := by
  have hlive : srv.sys.sessions (token k) = some s := live
  refine ⟨(srv.sys.ctx s).answers (io k a) now memory ((srv.log (.polled k)).link k), ?_⟩
  simp only [poll_session, System.step, System.on, hlive, ← Ctx.poll_on_state]
  rfl

theorem destroy_sys (srv : TcpSessionServer β υ) (k : Slot) :
    (srv.destroy k).has_upload = srv.has_upload ∧
      ((srv.destroy k).sys = srv.sys ∨ (srv.destroy k).sys = srv.sys.step (.destroy (token k))) := by
  unfold destroy
  split
  · exact ⟨rfl, .inr rfl⟩
  · exact ⟨rfl, .inl rfl⟩

/-- A server's sessions are led from one state to another by deeds. -/
structure Led (service : υ → ο → υ) (ds : List (Deed β ο)) (srv srv' : TcpSessionServer β υ) : Prop where
  has_upload : srv'.has_upload = srv.has_upload
  sys : srv'.sys = Runs.run System.step srv.sys (Deed.ops service srv.has_upload srv.sys ds)

section Led

variable {service : υ → ο → υ} {ds ds' : List (Deed β ο)}

theorem Led.trans (h : Led service ds srv srv') (h' : Led service ds' srv' srv'') :
    Led service (ds ++ ds') srv srv'' := by
  refine ⟨h'.has_upload.trans h.has_upload, ?_⟩
  rw [h'.sys, h.has_upload, h.sys, Deed.ops_append]
  exact List.foldl_append.symm

/-- What an action is to the system of sessions: one deed of the server's own, or none. -/
theorem Action.led (h : Action srv srv') :
    ∃ ds, Led service ds srv srv' ∧ ds.filterMap Deed.outside = [] := by
  cases h with
  | quiet h => exact ⟨[], ⟨h.has_upload, h.sys⟩, rfl⟩
  | construct k vacant =>
    exact ⟨[.construct k (srv.connections k).accepted_at srv.identity], ⟨rfl, rfl⟩, rfl⟩
  | destroy k =>
    rcases destroy_sys srv k with ⟨hkept, hsame | hstep⟩
    · exact ⟨[], ⟨hkept, hsame⟩, rfl⟩
    · exact ⟨[.destroy k], ⟨hkept, hstep⟩, rfl⟩
  | poll k s live now memory a =>
    obtain ⟨input, hinput⟩ := poll_session_sys live now memory a
    exact ⟨[.poll k input], ⟨rfl, hinput⟩, rfl⟩

theorem Acts.led (h : Acts srv srv') :
    ∃ ds, Led service ds srv srv' ∧ ds.filterMap Deed.outside = [] := by
  induction h with
  | refl => exact ⟨[], ⟨rfl, rfl⟩, rfl⟩
  | tail _ haction ih =>
    obtain ⟨ds, hled, hown⟩ := ih
    obtain ⟨ds', hled', hown'⟩ := haction.led
    exact ⟨ds ++ ds', hled.trans hled', by rw [List.filterMap_append, hown, hown']; rfl⟩

/-- An operation on the server leads its sessions, and the backend and the service change
where it says so. -/
theorem step_led (service : υ → ο → υ) (srv : TcpSessionServer β υ) (o : Op β ο) :
    ∃ ds, Led service ds srv (srv.step service o) ∧ ds.filterMap Deed.outside = o.outside.toList := by
  cases ho : o.outside with
  | none => exact (acts_step service srv ho).led
  | some x =>
    cases o with
    | backend b =>
      cases ho
      exact ⟨[.backend b], ⟨rfl, rfl⟩, rfl⟩
    | service move =>
      cases ho
      exact ⟨[.service move], ⟨rfl, rfl⟩, rfl⟩
    | _ => cases ho

end Led

/-- **Every run of the server is a run of a system of sessions.** Whatever lwIP calls back and
answers, the server constructs, polls and destroys the sessions with the tokens 1 and 2, and
does nothing else to them and to what they share; the backend and the service change by
themselves where the run says so, in that order. -/
theorem after_system (service : υ → ο → υ) (b : β) (u : υ) (has_upload : Bool) (ops : List (Op β ο)) :
    ∃ deeds : List (Deed β ο),
      (after service b u has_upload ops).sys
        = System.after b u (Deed.ops service has_upload (System.initial b u) deeds) ∧
      deeds.filterMap Deed.outside = ops.filterMap Op.outside := by
  have hled : ∃ ds, Led service ds (initial b u has_upload) (after service b u has_upload ops) ∧
      ds.filterMap Deed.outside = ops.filterMap Op.outside := by
    induction ops using List.reverseRecOn with
    | nil => exact ⟨[], ⟨rfl, rfl⟩, rfl⟩
    | append_singleton ops o ih =>
      obtain ⟨ds, hled, houtside⟩ := ih
      obtain ⟨ds', hled', houtside'⟩ := step_led service (after service b u has_upload ops) o
      have hafter : after service b u has_upload (ops ++ [o])
          = (after service b u has_upload ops).step service o := Runs.run_concat ..
      refine ⟨ds ++ ds', ?_, ?_⟩
      · rw [hafter]
        exact hled.trans hled'
      · rw [List.filterMap_append, List.filterMap_append, houtside, houtside']
        cases ho : o.outside with
        | none => simp [ho]
        | some x => simp [ho]
  obtain ⟨ds, hled, houtside⟩ := hled
  exact ⟨ds, hled.sys, houtside⟩

/-! ## Console and upload behind the sockets -/

/-- All sessions have the service, and the console is not both owned and blocked. -/
structure Guarded (srv : TcpSessionServer β υ) : Prop where
  attached : srv.has_upload = true
  shares : System.Shares (· = true) World.Exclusive srv.sys

omit [StreamBackend β] in
theorem Guarded.of_quiet (h : Guarded srv) (hquiet : Quiet srv srv') : Guarded srv' := by
  refine ⟨hquiet.has_upload.trans h.attached, ?_⟩
  rw [hquiet.sys]
  exact h.shares

/-- **Every action keeps console and upload apart**, if the service does its part. -/
theorem Guarded.action {service : υ → ο → υ} (hservice : Firmingo.Quiet service) (h : Guarded srv)
    (haction : Action srv srv') : Guarded srv' := by
  have hrule := exclusive_rule (β := β) hservice
  cases haction with
  | quiet hquiet => exact h.of_quiet hquiet
  | construct k vacant =>
    exact ⟨h.attached, h.shares.construct _ _ _ _ h.attached h.shares.world⟩
  | destroy k =>
    obtain ⟨hkept, hsys⟩ := destroy_sys srv k
    refine ⟨hkept.trans h.attached, ?_⟩
    rcases hsys with hsame | hstep
    · rw [hsame]
      exact h.shares
    · rw [hstep]
      exact h.shares.destroy hrule _
  | poll k s live now memory a =>
    refine ⟨h.attached, ?_⟩
    obtain ⟨input, hinput⟩ := poll_session_sys live now memory a
    rw [hinput]
    exact h.shares.poll hrule _ input

/-- So does every operation on the server. -/
theorem Guarded.step {service : υ → ο → υ} (hservice : Firmingo.Quiet service) (h : Guarded srv)
    (o : Op β ο) : Guarded (srv.step service o) := by
  cases o with
  | backend b => exact ⟨h.attached, h.shares.ok.step (.backend b), h.shares.known, h.shares.world⟩
  | service move =>
    refine ⟨h.attached, h.shares.ok.step (.upload (service srv.sys.upload move)), h.shares.known, ?_⟩
    rcases h.shares.world with hfree | hopen
    · exact .inl hfree
    · exact .inr (hservice.serve srv.sys.upload move hopen)
  | begin | callback | poll | stop =>
    exact Runs.actions_invariant (fun _ _ haction hx => hx.action hservice haction)
      (acts_step service srv rfl) h

/-- **Behind the two sockets, console and upload exclude each other.** A server with the FMS1
service attached, under any callbacks, answers and polls: while a session owns the console no
upload transaction is open, and while one is open nobody owns the console. -/
theorem console_or_upload (b : β) (u : Managed.FmgoUpload) (ops : List (Op β Managed.FmgoUpload.Move)) :
    (after Managed.FmgoUpload.serve b u true ops).sys.channel.stream.owner = 0 ∨
      (after Managed.FmgoUpload.serve b u true ops).sys.upload.blocks_console = false := by
  have hstart : Guarded (initial b u true) :=
    ⟨rfl, (System.ok_rule.after b u []).ok, fun hs => (by cases hs), .inl rfl⟩
  have hend : Guarded (after Managed.FmgoUpload.serve b u true ops) :=
    Runs.run_invariant _ hstart (fun _ o h => h.step Managed.FmgoUpload.quiet o) ops
  exact hend.shares.world

end TcpSessionServer

end Firmingo
