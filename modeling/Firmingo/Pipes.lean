/-
The application endpoint as two bounded queues.

`ApplicationEndpoint` keeps each direction in a ring. `Pipes` is the endpoint with a queue of
`Fifo` in each ring's place: it says which bytes a call takes and gives, and keeps the accounts.
The two answer every sequence of calls alike, and the counters of the endpoint are those of the
queues: the discarded bytes up to saturation, and the peak, which is the largest number of bytes
that were ever pending.
-/
import Firmingo.Endpoint
import Firmingo.Fifo
import Firmingo.Runs

set_option autoImplicit false

open Octets Fifo Runs

namespace Firmingo

open ApplicationEndpoint (capacity)

/-! ## Calls -/

/-- The calls of both sides of the endpoint. -/
inductive EndpointCall
  | opened (owner : UInt32)
  | closed
  | discard
  | read_from_host (size : ℕ)
  | write_to_host (data : List Byte)
  | read (size : ℕ)
  | write (data : List Byte)

/-- What a call returns. -/
inductive EndpointAnswer
  | done
  | bytes (data : List Byte)
  | count (n : ℕ)
  deriving DecidableEq

/-- A call of the endpoint. -/
def ApplicationEndpoint.call (a : ApplicationEndpoint) :
    EndpointCall → EndpointAnswer × ApplicationEndpoint
  | .opened owner => (.done, a.opened owner)
  | .closed => (.done, a.closed)
  | .discard => (.done, a.discard)
  | .read_from_host size => (.bytes (a.read_from_host size).1, (a.read_from_host size).2)
  | .write_to_host data => (.count (a.write_to_host data).1, (a.write_to_host data).2)
  | .read size => (.bytes (a.read size).1, (a.read size).2)
  | .write data => (.count (a.write data).1, (a.write data).2)

/-- The endpoint with queues for rings: `rx` from the host, `tx` to it. -/
structure Pipes where
  rx : Queue Byte := {}
  tx : Queue Byte := {}
  active : Bool := false

/-- A call of the two queues. -/
def Pipes.call (p : Pipes) : EndpointCall → EndpointAnswer × Pipes
  | .opened _ => (.done, { p with active := true })
  | .closed => (.done, { p with active := false })
  | .discard => (.done, { p with rx := p.rx.flush, tx := p.tx.flush })
  | .read_from_host size =>
    if p.active then (.bytes (p.rx.pop size).1, { p with rx := (p.rx.pop size).2 }) else (.bytes [], p)
  | .write_to_host data =>
    if p.active then (.count (p.tx.push capacity data).1, { p with tx := (p.tx.push capacity data).2 })
    else (.count 0, p)
  | .read size =>
    if p.active then (.bytes (p.tx.pop size).1, { p with tx := (p.tx.pop size).2 }) else (.bytes [], p)
  | .write data =>
    if p.active then (.count (p.rx.push capacity data).1, { p with rx := (p.rx.push capacity data).2 })
    else (.count 0, p)

/-- A call, and the answers so far. -/
def answering {σ : Type} (call : σ → EndpointCall → EndpointAnswer × σ)
    (w : σ × List EndpointAnswer) (c : EndpointCall) : σ × List EndpointAnswer :=
  ((call w.1 c).2, w.2 ++ [(call w.1 c).1])

/-! ## One ring -/

namespace Ring

/-- A ring and its counter stand for a queue. -/
structure Stands (r : Ring) (discarded : ℕ) (q : Queue Byte) : Prop where
  wf : Wf r
  items : r.contents = q.items
  discarded : discarded = min q.flushed (2 ^ 64 - 1)
  peak : r.peak = q.peak
  balanced : q.Balanced capacity

theorem stands_initial : Stands {} 0 {} :=
  ⟨wf_initial, rfl, rfl, rfl, Queue.balanced_empty⟩

variable {r : Ring} {discarded : ℕ} {q : Queue Byte}

theorem Stands.size (h : Stands r discarded q) : r.size = q.items.length := by
  rw [← h.items, contents_length]

theorem Stands.push_count (h : Stands r discarded q) (data : List Byte) :
    (r.push data).1 = (q.push capacity data).1 := by
  rw [Queue.push, ← h.size]
  rfl

theorem Stands.push (h : Stands r discarded q) (data : List Byte) :
    Stands (r.push data).2 discarded (q.push capacity data).2 := by
  refine ⟨push_wf h.wf data, ?_, h.discarded, ?_, h.balanced.push data⟩
  · rw [push_contents h.wf data, h.items, h.push_count]
    rfl
  · have hpeak : (r.push data).2.peak
        = if r.size + (r.push data).1 > r.peak then r.size + (r.push data).1 else r.peak := rfl
    have hqueue : (q.push capacity data).2.peak = max q.peak (q.items.length + (q.push capacity data).1) := rfl
    rw [hpeak, hqueue, h.push_count, h.size, h.peak, max_def_lt]

theorem Stands.pop_bytes (h : Stands r discarded q) (size : ℕ) : (r.pop size).1 = (q.pop size).1 := by
  rw [Ring.pop_bytes h.wf, Queue.pop, ← h.items, contents, ← List.map_take, List.take_range]

theorem Stands.pop (h : Stands r discarded q) (size : ℕ) :
    Stands (r.pop size).2 discarded (q.pop size).2 := by
  refine ⟨pop_wf h.wf size, ?_, h.discarded, h.peak, h.balanced.pop size⟩
  have hsplit := pop_contents h.wf size
  rw [h.pop_bytes, h.items] at hsplit
  have hq : q.items = (q.pop size).1 ++ (q.pop size).2.items := (List.take_append_drop size q.items).symm
  exact (List.append_cancel_left (hq.symm.trans hsplit)).symm

/-- The counter stops at its largest value. -/
theorem add_saturated (total n : ℕ) : add (min total (2 ^ 64 - 1)) n = min (total + n) (2 ^ 64 - 1) := by
  unfold add
  split <;> omega

theorem Stands.discard (h : Stands r discarded q) :
    Stands { r with head := 0, size := 0 } (add discarded r.size) q.flush := by
  refine ⟨h.wf.cleared, rfl, ?_, h.peak, h.balanced.flush⟩
  rw [h.discarded, add_saturated, h.size]
  rfl

end Ring

/-! ## The endpoint -/

namespace ApplicationEndpoint

/-- The endpoint stands for the two queues. -/
structure Stands (a : ApplicationEndpoint) (p : Pipes) : Prop where
  rx : a.rx.Stands a.discarded_rx p.rx
  tx : a.tx.Stands a.discarded_tx p.tx
  active : a.active = p.active

theorem stands_initial : Stands {} {} :=
  ⟨Ring.stands_initial, Ring.stands_initial, rfl⟩

variable {a : ApplicationEndpoint} {p : Pipes}

/-- **One call**: the same answer, and states that still correspond. -/
theorem Stands.called (h : Stands a p) (c : EndpointCall) :
    (a.call c).1 = (p.call c).1 ∧ Stands (a.call c).2 (p.call c).2 := by
  obtain ⟨hrx, htx, hactive⟩ := h
  cases c with
  | opened owner => exact ⟨rfl, hrx, htx, rfl⟩
  | closed => exact ⟨rfl, hrx, htx, rfl⟩
  | discard => exact ⟨rfl, hrx.discard, htx.discard, hactive⟩
  | read_from_host size =>
    simp only [ApplicationEndpoint.call, read_from_host, Pipes.call, hactive]
    split
    · exact ⟨by rw [hrx.pop_bytes], hrx.pop size, htx, by rfl⟩
    · exact ⟨rfl, hrx, htx, hactive⟩
  | write_to_host data =>
    simp only [ApplicationEndpoint.call, write_to_host, Pipes.call, hactive]
    split
    · exact ⟨by rw [htx.push_count], hrx, htx.push data, by rfl⟩
    · exact ⟨rfl, hrx, htx, hactive⟩
  | read size =>
    simp only [ApplicationEndpoint.call, read, Pipes.call, hactive]
    split
    · exact ⟨by rw [htx.pop_bytes], hrx, htx.pop size, by rfl⟩
    · exact ⟨rfl, hrx, htx, hactive⟩
  | write data =>
    simp only [ApplicationEndpoint.call, write, Pipes.call, hactive]
    split
    · exact ⟨by rw [hrx.push_count], hrx.push data, htx, by rfl⟩
    · exact ⟨rfl, hrx, htx, hactive⟩

theorem Stands.run (h : Stands a p) (answers : List EndpointAnswer) (calls : List EndpointCall) :
    (Runs.run (answering call) (a, answers) calls).2 = (Runs.run (answering Pipes.call) (p, answers) calls).2 ∧
      Stands (Runs.run (answering call) (a, answers) calls).1
        (Runs.run (answering Pipes.call) (p, answers) calls).1 := by
  induction calls using List.reverseRecOn with
  | nil => exact ⟨rfl, h⟩
  | append_singleton calls c ih =>
    rw [run_concat, run_concat]
    obtain ⟨hanswers, hstands⟩ := ih
    obtain ⟨hanswer, hnext⟩ := hstands.called c
    exact ⟨by simp only [answering, hanswers, hanswer], hnext⟩

/-! ## The accounts -/

/-- After every call each queue's peak has been raised to what is pending. -/
theorem Stands.call_peak (h : Stands a p) (c : EndpointCall) :
    (p.call c).2.rx.peak = max p.rx.peak (p.call c).2.rx.items.length ∧
      (p.call c).2.tx.peak = max p.tx.peak (p.call c).2.tx.items.length := by
  have hrx := h.rx.balanced
  have htx := h.tx.balanced
  cases c with
  | opened owner => exact ⟨hrx.idle_peak, htx.idle_peak⟩
  | closed => exact ⟨hrx.idle_peak, htx.idle_peak⟩
  | discard => exact ⟨p.rx.flush_peak, p.tx.flush_peak⟩
  | read_from_host size =>
    simp only [Pipes.call]
    split
    · exact ⟨hrx.pop_peak size, htx.idle_peak⟩
    · exact ⟨hrx.idle_peak, htx.idle_peak⟩
  | write_to_host data =>
    simp only [Pipes.call]
    split
    · exact ⟨hrx.idle_peak, Queue.push_peak data⟩
    · exact ⟨hrx.idle_peak, htx.idle_peak⟩
  | read size =>
    simp only [Pipes.call]
    split
    · exact ⟨hrx.idle_peak, htx.pop_peak size⟩
    · exact ⟨hrx.idle_peak, htx.idle_peak⟩
  | write data =>
    simp only [Pipes.call]
    split
    · exact ⟨Queue.push_peak data, htx.idle_peak⟩
    · exact ⟨hrx.idle_peak, htx.idle_peak⟩

/-- The endpoint and the queues after a run from the start. -/
abbrev after (calls : List EndpointCall) : ApplicationEndpoint × List EndpointAnswer :=
  Runs.run (answering call) ({}, []) calls

abbrev queued (calls : List EndpointCall) : Pipes × List EndpointAnswer :=
  Runs.run (answering Pipes.call) ({}, []) calls

/-- What a direction of the endpoint is, after some calls: the list, the accounts and the
counters. -/
structure Direction (ring : ApplicationEndpoint → Ring) (discarded : ApplicationEndpoint → ℕ)
    (queue : Pipes → Queue Byte) (calls : List EndpointCall) : Prop where
  contents : (ring (after calls).1).contents = (queue (queued calls).1).items
  fits : (queue (queued calls).1).items.length ≤ 256
  accounts : discarded (after calls).1 < 2 ^ 64 - 1 →
    (queue (queued calls).1).accepted = (queue (queued calls).1).popped + (ring (after calls).1).size
      + discarded (after calls).1
  peak : IsGreatest { n | ∃ before later, calls = before ++ later ∧ n = (ring (after before).1).size }
    (ring (after calls).1).peak

/-- A direction of the endpoint, from the correspondence in every state of the run. -/
theorem direction_of_stands {ring : ApplicationEndpoint → Ring} {discarded : ApplicationEndpoint → ℕ}
    {queue : Pipes → Queue Byte}
    (hstands : ∀ a p, Stands a p → (ring a).Stands (discarded a) (queue p))
    (hpeak : ∀ a p, Stands a p → ∀ c,
      (queue (p.call c).2).peak = max (queue p).peak (queue (p.call c).2).items.length)
    (hstart : (ring {}).peak = (ring {}).size) (calls : List EndpointCall) :
    Direction ring discarded queue calls := by
  have hrun : ∀ calls, Stands (after calls).1 (queued calls).1 := fun calls => (stands_initial.run [] calls).2
  have hhere := hstands _ _ (hrun calls)
  refine ⟨hhere.items, hhere.balanced.fits, ?_, ?_⟩
  · intro hbelow
    have hflushed : discarded (after calls).1 = (queue (queued calls).1).flushed := by
      have hcount := hhere.discarded
      omega
    rw [hhere.balanced.balance, hflushed, hhere.size]
  · refine isGreatest_peak (fun w : ApplicationEndpoint × List EndpointAnswer => (ring w.1).size)
      (fun w => (ring w.1).peak) hstart calls ?_
    intro before c later _
    have hbefore := hrun before
    have hafter := hstands _ _ (hrun (before ++ [c]))
    have hraise := hpeak _ _ hbefore c
    rw [hafter.peak, (hstands _ _ hbefore).peak, hafter.size]
    simp only [queued, run_concat, answering] at hraise ⊢
    exact hraise

/-- **The endpoint is a pair of bounded queues.** After every sequence of calls, of whatever
sizes, the endpoint has answered as the two queues do: a push while active accepts the leading
bytes that fit, a pop while active gives the oldest bytes, and both give nothing while inactive.
Each direction holds the bytes of its queue, at most 256; every byte accepted was popped, is
pending or is counted as discarded, as long as that counter is below its largest value; and the
peak is the largest number of bytes that were ever pending. -/
theorem endpoint_refines_queues (calls : List EndpointCall) :
    (after calls).2 = (queued calls).2 ∧ (after calls).1.active = (queued calls).1.active ∧
      Direction (·.rx) (·.discarded_rx) (·.rx) calls ∧ Direction (·.tx) (·.discarded_tx) (·.tx) calls := by
  obtain ⟨hanswers, hstands⟩ := stands_initial.run [] calls
  refine ⟨hanswers, hstands.active, ?_, ?_⟩
  · exact direction_of_stands (fun _ _ h => h.rx) (fun _ _ h c => (h.call_peak c).1) rfl calls
  · exact direction_of_stands (fun _ _ h => h.tx) (fun _ _ h c => (h.call_peak c).2) rfl calls

end ApplicationEndpoint

end Firmingo
