/-
A poll and the transport it is given.

`Session::poll` is called with a `ByteIO`. It asks whether the transport is connected, writes
to it at most once and then reads from it at most once. `poll_on` is the poll with the
transport's state passed through these calls; `Ctx.poll`, which is given the answers instead,
is what the session sees of it.
-/
import Firmingo.Session

set_option autoImplicit false

open Octets

namespace Firmingo

variable {β υ τ : Type} [StreamBackend β] [UploadService υ] (io : ByteIO τ)

namespace Ctx

variable (c : Ctx β υ)

/-- The transport after the output stage, and after the input stage. -/
def flush_io (t : τ) : τ := if c.session.output = [] then t else (io.write t c.session.output).2

def receive_io (t : τ) : τ :=
  if c.session.decoder.state ≠ .incomplete then t
  else (io.read t (min c.session.decoder.needed 256)).2

/-- The answers of a transport in state `t`. The one read comes after the one write. -/
def answers (now : UInt32) (memory : Option MemorySamples) (t : τ) : PollInput where
  now := now
  connected := io.connected t
  write := fun data => (io.write t data).1
  read := fun capacity => (io.read (c.flush_io io t) capacity).1
  memory := memory

/-- `Session::poll`, with its transport. -/
def poll_on (now : UInt32) (memory : Option MemorySamples) (t : τ) : τ × Ctx β υ :=
  let input := c.answers io now memory t
  if c.session.result ≠ .running then (t, c)
  else if !io.connected t then (t, c.finish .disconnected)
  else
    match c.expired now with
    | some result => (t, c.finish result)
    | none =>
      let (t, c) := (c.flush_io io t, c.flush input)
      if c.session.result ≠ .running then (t, c)
      else if c.session.closing then
        if c.session.output ≠ [] then (t, c) else (t, c.finish .protocol_error)
      else
        let (t, c) := (c.receive_io io t, c.receive input)
        if c.session.result ≠ .running then (t, c) else (t, c.serve input)

/-- **The session sees only the answers.** -/
theorem poll_on_state (now : UInt32) (memory : Option MemorySamples) (t : τ) :
    (c.poll_on io now memory t).2 = c.poll (c.answers io now memory t) := by
  have hnow : (c.answers io now memory t).now = now := rfl
  have hconnected : (c.answers io now memory t).connected = io.connected t := rfl
  unfold poll_on poll
  simp only [hnow, hconnected]
  split
  · rfl
  split
  · rfl
  cases c.expired now with
  | some result => rfl
  | none =>
    simp only
    split
    · rfl
    split
    · split <;> rfl
    · split <;> rfl

/-- A deadline that has passed ends the session before any call of the transport. -/
theorem poll_on_expired {now : UInt32} {result : SessionResult} (h : c.expired now = some result)
    (memory : Option MemorySamples) (t : τ) : (c.poll_on io now memory t).1 = t := by
  unfold poll_on
  simp only [h]
  split
  · rfl
  split <;> rfl

end Ctx

end Firmingo
