/-
The lock-free byte ring between the cores: `SpscByteRing` of
`experiments/managed_sketch/mailbox.h`.

One producer calls `push` and `free_space`, one consumer calls `pop` and `size`.
Every load or store of an index is one step, every byte copied is one step, and the
steps of the two sides interleave freely; accesses are sequentially consistent. Both
indexes run freely modulo `2^32`. (The guard on a null pointer returns before the
first access, so it is no step.)

`accepted` and `popped` record what `push` and `pop` reported. `free_seen` and
`size_seen` are the last values `free_space` and `size` returned, until the side that
asked moves its own index.
-/
import Firmingo.Octets
import Firmingo.Runs
import Firmingo.Slots

set_option autoImplicit false

open Octets Slots

namespace Firmingo

namespace SpscByteRing

def capacity : ℕ := 256

instance : NeZero capacity := ⟨by decide⟩

theorem capacity_dvd : capacity ∣ 2 ^ 32 := by decide

end SpscByteRing

open SpscByteRing (capacity)

/-- The shared memory. -/
structure SpscByteRing where
  bytes : Fin SpscByteRing.capacity → Byte := fun _ => 0
  head : UInt32 := 0
  tail : UInt32 := 0

/-- Where the producer is. -/
inductive Producer
  | idle
  /-- `push` has loaded `tail_`. -/
  | push_loaded (data : List Byte) (tail : UInt32)
  /-- `push` has loaded both indexes and copied the first bytes of its data. -/
  | copying (done rest : List Byte) (tail head : UInt32)
  /-- `free_space` has loaded `tail_`. -/
  | free_loaded (tail : UInt32)
  deriving DecidableEq, Repr

/-- Where the consumer is. -/
inductive Consumer
  | idle
  /-- `pop` has loaded `head_`. -/
  | pop_loaded (count : ℕ) (head : UInt32)
  /-- `pop` has loaded both indexes and copied some bytes out. -/
  | copying (count : ℕ) (done : List Byte) (head tail : UInt32)
  /-- `size` has loaded `head_`. -/
  | size_loaded (head : UInt32)
  deriving DecidableEq, Repr

/-- The ring, its two sides and what they were told. -/
structure Mailbox where
  ring : SpscByteRing := {}
  producer : Producer := .idle
  consumer : Consumer := .idle
  /-- The bytes `push` reported accepted, and those of the last `push`. -/
  accepted : List Byte := []
  pushed : List Byte := []
  /-- The bytes `pop` returned, and those of the last `pop`. -/
  popped : List Byte := []
  taken : List Byte := []
  free_seen : Option ℕ := none
  size_seen : Option ℕ := none

namespace Mailbox

/-- One access of one side: a call makes its first one. -/
inductive Access
  | push (data : List Byte)
  | free_space
  | producer
  | pop (count : ℕ)
  | size
  | consumer
  deriving DecidableEq, Repr

/-- The loop of `push` goes on with this byte. -/
def pushes (tail head : UInt32) (rest : List Byte) : Option (Byte × List Byte) :=
  match rest with
  | [] => none
  | byte :: rest => if (tail - head).toNat < capacity then some (byte, rest) else none

/-- The next access of the producer's call. -/
def produce (m : Mailbox) : Mailbox :=
  match m.producer with
  | .idle => m
  | .push_loaded data tail => { m with producer := .copying [] data tail m.ring.head }
  | .copying done rest tail head =>
    match pushes tail head rest with
    | some (byte, rest) =>
      { m with
        ring.bytes := Function.update m.ring.bytes (slot capacity tail.toNat) byte
        producer := .copying (done ++ [byte]) rest (tail + 1) head }
    | none =>
      { m with
        ring.tail := tail
        producer := .idle
        accepted := m.accepted ++ done
        pushed := done
        free_seen := none }
  | .free_loaded tail =>
    { m with producer := .idle, free_seen := some (256 - (tail - m.ring.head)).toNat }

/-- The next access of the consumer's call. -/
def consume (m : Mailbox) : Mailbox :=
  match m.consumer with
  | .idle => m
  | .pop_loaded count head => { m with consumer := .copying count [] head m.ring.tail }
  | .copying count done head tail =>
    if done.length < count ∧ head ≠ tail then
      { m with consumer :=
          .copying count (done ++ [m.ring.bytes (slot capacity head.toNat)]) (head + 1) tail }
    else
      { m with
        ring.head := head
        consumer := .idle
        popped := m.popped ++ done
        taken := done
        size_seen := none }
  | .size_loaded head =>
    { m with consumer := .idle, size_seen := some (m.ring.tail - head).toNat }

/-- One access. A side that is inside a call makes no other call. -/
def step (m : Mailbox) : Access → Mailbox
  | .push data =>
    if m.producer = .idle then { m with producer := .push_loaded data m.ring.tail } else m
  | .free_space =>
    if m.producer = .idle then { m with producer := .free_loaded m.ring.tail } else m
  | .producer => m.produce
  | .pop count =>
    if m.consumer = .idle then { m with consumer := .pop_loaded count m.ring.head } else m
  | .size => if m.consumer = .idle then { m with consumer := .size_loaded m.ring.head } else m
  | .consumer => m.consume

/-- The state after a run from an empty ring. -/
def after (run : List Access) : Mailbox := Runs.run step {} run

/-- The slot that the producer's next access writes. -/
def next_write (m : Mailbox) : Option (Fin capacity) :=
  match m.producer with
  | .copying _ rest tail head => (pushes tail head rest).map fun _ => slot capacity tail.toNat
  | _ => none

/-! ## The invariant

The window of the ring is what was accepted and not popped, followed by what a
running `push` has copied so far. The producer's copy of `head_` may be old, which
only makes it more careful; the same holds of the consumer's copy of `tail_`. -/

/-- The bytes a running `push` has copied. -/
def copied : Producer → List Byte
  | .copying done _ _ _ => done
  | _ => []

/-- The bytes accepted and not popped. -/
def queue (m : Mailbox) : List Byte := m.accepted.drop m.popped.length

/-- What the producer has loaded is true of the ring, or was: the numbers of bytes
accepted and popped, and `tail_`. -/
def Producing (accepted popped : ℕ) (tail_ : UInt32) : Producer → Prop
  | .idle => True
  | .push_loaded _ tail => tail = tail_
  | .copying done _ tail head =>
    tail = counter (accepted + done.length) ∧
      ∃ seen ≤ popped, head = counter seen ∧ accepted + done.length ≤ seen + capacity
  | .free_loaded tail => tail = tail_

/-- What the consumer has loaded is true of the ring, or was. -/
def Consuming (popped : ℕ) (queue : List Byte) (head_ : UInt32) : Consumer → Prop
  | .idle => True
  | .pop_loaded _ head => head = head_
  | .copying _ done head tail =>
    head = counter (popped + done.length) ∧ done <+: queue ∧
      ∃ seen ≤ queue.length, tail = counter (popped + seen) ∧ done.length ≤ seen
  | .size_loaded head => head = head_

structure Inv (m : Mailbox) : Prop where
  tail_eq : m.ring.tail = counter m.accepted.length
  head_eq : m.ring.head = counter m.popped.length
  popped_le : m.popped <+: m.accepted
  room : m.accepted.length ≤ m.popped.length + capacity
  window : Holds m.ring.bytes m.popped.length (m.queue ++ copied m.producer)
  producing : Producing m.accepted.length m.popped.length m.ring.tail m.producer
  consuming : Consuming m.popped.length m.queue m.ring.head m.consumer
  free_le : ∀ v, m.free_seen = some v → v + m.accepted.length ≤ m.popped.length + capacity
  size_le : ∀ v, m.size_seen = some v → v + m.popped.length ≤ m.accepted.length

variable {m : Mailbox}

theorem Inv.accepted_eq (h : Inv m) : m.accepted = m.popped ++ m.queue := by
  obtain ⟨rest, hrest⟩ := h.popped_le
  rw [queue, ← hrest, List.drop_left]

theorem Inv.length_eq (h : Inv m) : m.accepted.length = m.popped.length + m.queue.length := by
  rw [← List.length_append, ← h.accepted_eq]

/-- What the other side does in the meantime keeps what a side has loaded. -/
theorem Consuming.pushed {popped : ℕ} {queue : List Byte} {head_ : UInt32} {c : Consumer}
    (h : Consuming popped queue head_ c) (more : List Byte) :
    Consuming popped (queue ++ more) head_ c := by
  cases c with
  | copying count done head tail =>
    obtain ⟨hhead, hdone, seen, hseen, htail, hle⟩ := h
    refine ⟨hhead, hdone.trans (List.prefix_append _ _), seen, ?_, htail, hle⟩
    rw [List.length_append]
    omega
  | idle => exact h
  | pop_loaded count head => exact h
  | size_loaded head => exact h

theorem Producing.popped {accepted popped : ℕ} {tail_ : UInt32} {p : Producer}
    (h : Producing accepted popped tail_ p) (n : ℕ) : Producing accepted (popped + n) tail_ p := by
  cases p with
  | copying done rest tail head =>
    obtain ⟨htail, seen, hseen, hhead, hroom⟩ := h
    exact ⟨htail, seen, by omega, hhead, hroom⟩
  | idle => exact h
  | push_loaded data tail => exact h
  | free_loaded tail => exact h

variable {done : List Byte} {tail head : UInt32}

/-- The loop of `push` only goes on where the window has room. -/
theorem pushes_room {accepted popped : ℕ} {tail_ : UInt32} {rest rest' : List Byte}
    {byte : Byte} (hle : popped ≤ accepted)
    (h : Producing accepted popped tail_ (.copying done rest tail head))
    (hpush : pushes tail head rest = some (byte, rest')) :
    Producing accepted popped tail_ (.copying (done ++ [byte]) rest' (tail + 1) head) ∧
      accepted + done.length < popped + capacity := by
  obtain ⟨htail, seen, hseen, hhead, hroom⟩ := h
  have hcap : capacity = 256 := rfl
  have hlt : (tail - head).toNat < capacity := by
    cases rest with
    | nil => simp [pushes] at hpush
    | cons b rest =>
      by_contra hfull
      simp [pushes, hfull] at hpush
  rw [htail, hhead, toNat_counter_sub (by omega) (by omega)] at hlt
  refine ⟨⟨?_, seen, hseen, hhead, ?_⟩, by omega⟩
  · rw [htail, counter_succ, List.length_append, List.length_singleton, Nat.add_assoc]
  · rw [List.length_append, List.length_singleton]
    omega

/-- `push` publishes the bytes it has copied. -/
theorem Inv.publish (h : Inv m) {rest : List Byte} (hp : m.producer = .copying done rest tail head) :
    Inv { m with
      ring.tail := tail
      producer := .idle
      accepted := m.accepted ++ done
      pushed := done
      free_seen := none } := by
  have hlen := h.length_eq
  have hwindow := h.window
  have hprod := h.producing
  rw [hp] at hwindow hprod
  obtain ⟨htail, seen, hseen, -, hroom⟩ := hprod
  have hqueue : (m.accepted ++ done).drop m.popped.length = m.queue ++ done := by
    rw [queue, List.drop_append_of_le_length (by omega)]
  constructor
  · rw [htail, List.length_append]
  · exact h.head_eq
  · exact h.popped_le.trans (List.prefix_append _ _)
  · show (m.accepted ++ done).length ≤ m.popped.length + capacity
    rw [List.length_append]
    omega
  · show Holds m.ring.bytes m.popped.length ((m.accepted ++ done).drop m.popped.length ++ [])
    rw [hqueue, List.append_nil]
    exact hwindow
  · trivial
  · show Consuming m.popped.length ((m.accepted ++ done).drop m.popped.length) m.ring.head m.consumer
    rw [hqueue]
    exact h.consuming.pushed done
  · intro v hv
    cases hv
  · intro v hv
    have hle := h.size_le v hv
    show v + m.popped.length ≤ (m.accepted ++ done).length
    rw [List.length_append]
    omega

/-- `push` copies a byte: to the slot after the window. -/
theorem Inv.copy (h : Inv m) {rest rest' : List Byte} {byte : Byte}
    (hp : m.producer = .copying done rest tail head) (hpush : pushes tail head rest = some (byte, rest')) :
    Inv { m with
      ring.bytes := Function.update m.ring.bytes (slot capacity tail.toNat) byte
      producer := .copying (done ++ [byte]) rest' (tail + 1) head } := by
  have hlen := h.length_eq
  have hwindow := h.window
  have hprod := h.producing
  rw [hp] at hwindow hprod
  obtain ⟨hprod', hroom⟩ := pushes_room (by omega) hprod hpush
  refine ⟨h.tail_eq, h.head_eq, h.popped_le, h.room, ?_, hprod', h.consuming, h.free_le, h.size_le⟩
  have hslot : slot capacity tail.toNat
      = slot capacity (m.popped.length + (m.queue ++ done).length) := by
    rw [hprod.1, slot_counter SpscByteRing.capacity_dvd, List.length_append, hlen, Nat.add_assoc]
  have hfree : (m.queue ++ done).length < capacity := by
    rw [List.length_append]
    omega
  show Holds (Function.update m.ring.bytes (slot capacity tail.toNat) byte) m.popped.length
    (m.queue ++ (done ++ [byte]))
  rw [hslot, ← List.append_assoc]
  exact Holds.write hwindow hfree byte

/-- The free space the producer computes is the truth of the moment. -/
theorem Inv.free_space (h : Inv m) {v : ℕ} (hv : (256 - (m.ring.tail - m.ring.head)).toNat = v) :
    v + m.accepted.length ≤ m.popped.length + capacity := by
  have hlen := h.length_eq
  have hroom := h.room
  have hcap : capacity = 256 := rfl
  have hsub : (m.ring.tail - m.ring.head).toNat = m.accepted.length - m.popped.length := by
    rw [h.tail_eq, h.head_eq]
    exact toNat_counter_sub (by omega) (by omega)
  have hle : m.ring.tail - m.ring.head ≤ 256 := by
    rw [UInt32.le_iff_toNat_le, hsub]
    show _ ≤ 256
    omega
  rw [UInt32.toNat_sub_of_le _ _ hle, hsub] at hv
  have hword : (256 : UInt32).toNat = 256 := rfl
  omega

/-- The producer keeps the invariant at each of its points. -/
theorem Inv.produce (h : Inv m) : Inv m.produce := by
  have hwindow := h.window
  have hprod := h.producing
  cases hp : m.producer with
  | idle =>
    rw [Mailbox.produce, hp]
    exact h
  | push_loaded data tail =>
    rw [hp] at hwindow hprod
    simp only [Mailbox.produce, hp]
    refine ⟨h.tail_eq, h.head_eq, h.popped_le, h.room, hwindow, ?_, h.consuming, h.free_le,
      h.size_le⟩
    refine ⟨?_, m.popped.length, le_rfl, h.head_eq, h.room⟩
    show tail = counter m.accepted.length
    rw [← h.tail_eq]
    exact hprod
  | copying done rest tail head =>
    cases hpush : pushes tail head rest with
    | none =>
      simp only [Mailbox.produce, hp, hpush]
      exact h.publish hp
    | some next =>
      simp only [Mailbox.produce, hp, hpush]
      exact h.copy hp hpush
  | free_loaded tail =>
    rw [hp] at hwindow hprod
    simp only [Mailbox.produce, hp]
    refine ⟨h.tail_eq, h.head_eq, h.popped_le, h.room, hwindow, trivial, h.consuming, ?_,
      h.size_le⟩
    intro v hv
    change tail = m.ring.tail at hprod
    subst hprod
    exact h.free_space (Option.some.inj hv)

/-- `pop` gives up the bytes it has copied. -/
theorem Inv.take (h : Inv m) {count : ℕ} (hc : m.consumer = .copying count done head tail) :
    Inv { m with
      ring.head := head
      consumer := .idle
      popped := m.popped ++ done
      taken := done
      size_seen := none } := by
  have hlen := h.length_eq
  have hcons := h.consuming
  rw [hc] at hcons
  obtain ⟨hhead, hdone, -⟩ := hcons
  have hle := hdone.length_le
  have hqueue : m.accepted.drop (m.popped ++ done).length = m.queue.drop done.length := by
    rw [queue, List.drop_drop, List.length_append]
  constructor
  · exact h.tail_eq
  · rw [hhead, List.length_append]
  · show m.popped ++ done <+: m.accepted
    rw [h.accepted_eq]
    exact (List.prefix_append_right_inj _).mpr hdone
  · show m.accepted.length ≤ (m.popped ++ done).length + capacity
    have hroom := h.room
    rw [List.length_append]
    omega
  -- the window shrinks from below by what was popped
  · show Holds m.ring.bytes (m.popped ++ done).length
      (m.accepted.drop (m.popped ++ done).length ++ copied m.producer)
    rw [hqueue, List.length_append, ← List.drop_append_of_le_length hle]
    exact h.window.drop done.length
  · show Producing m.accepted.length (m.popped ++ done).length m.ring.tail m.producer
    rw [List.length_append]
    exact h.producing.popped done.length
  · trivial
  · intro v hv
    have hfree := h.free_le v hv
    show v + m.accepted.length ≤ (m.popped ++ done).length + capacity
    rw [List.length_append]
    omega
  · intro v hv
    cases hv

/-- `pop` copies the next byte of the queue. -/
theorem Inv.fetch (h : Inv m) {count : ℕ}
    (hc : m.consumer = .copying count done head tail) (hne : head ≠ tail) :
    Inv { m with
      consumer := .copying count (done ++ [m.ring.bytes (slot capacity head.toNat)]) (head + 1)
        tail } := by
  have hcons := h.consuming
  rw [hc] at hcons
  obtain ⟨hhead, hdone, seen, hseen, htail, hle⟩ := hcons
  refine ⟨h.tail_eq, h.head_eq, h.popped_le, h.room, h.window, h.producing, ?_, h.free_le,
    h.size_le⟩
  -- the two indexes differ, so the position is inside the queue
  have hlt : done.length < seen := by
    rcases Nat.lt_or_eq_of_le hle with hlt | heq
    · exact hlt
    · rw [hhead, htail, heq] at hne
      exact absurd rfl hne
  obtain ⟨rest, hrest⟩ := hdone
  have hwindow := h.window
  cases rest with
  | nil =>
    rw [← hrest, List.append_nil] at hseen
    omega
  | cons byte rest =>
    have hbyte : m.ring.bytes (slot capacity head.toNat) = byte := by
      have hdrop := hwindow.drop done.length
      rw [← hrest, List.append_assoc, List.drop_left] at hdrop
      rw [hhead, slot_counter SpscByteRing.capacity_dvd]
      exact hdrop.first
    show Consuming m.popped.length m.queue m.ring.head _
    rw [hbyte]
    refine ⟨?_, ⟨rest, ?_⟩, seen, hseen, htail, ?_⟩
    · rw [hhead, counter_succ, List.length_append, List.length_singleton, Nat.add_assoc]
    · rw [← hrest, List.append_assoc, List.singleton_append]
    · rw [List.length_append, List.length_singleton]
      omega

/-- So does the consumer. -/
theorem Inv.consume (h : Inv m) : Inv m.consume := by
  have hlen := h.length_eq
  have hcons := h.consuming
  cases hc : m.consumer with
  | idle =>
    rw [Mailbox.consume, hc]
    exact h
  | pop_loaded count head =>
    rw [hc] at hcons
    simp only [Mailbox.consume, hc]
    refine ⟨h.tail_eq, h.head_eq, h.popped_le, h.room, h.window, h.producing, ?_, h.free_le,
      h.size_le⟩
    refine ⟨?_, List.nil_prefix, m.queue.length, le_rfl, ?_, Nat.zero_le _⟩
    · show head = counter m.popped.length
      rw [← h.head_eq]
      exact hcons
    · rw [← hlen]
      exact h.tail_eq
  | copying count done head tail =>
    simp only [Mailbox.consume, hc]
    split
    · next hmore => exact h.fetch hc hmore.2
    · exact h.take hc
  | size_loaded head =>
    rw [hc] at hcons
    simp only [Mailbox.consume, hc]
    refine ⟨h.tail_eq, h.head_eq, h.popped_le, h.room, h.window, h.producing, trivial, h.free_le,
      ?_⟩
    intro v hv
    change head = m.ring.head at hcons
    have hroom := h.room
    have hcap : capacity = 256 := rfl
    rw [Option.some.injEq, hcons, h.tail_eq, h.head_eq,
      toNat_counter_sub (by omega) (by omega)] at hv
    show v + m.popped.length ≤ m.accepted.length
    omega

/-- Every access keeps the invariant: a call's first one only loads the caller's own
index. -/
theorem Inv.step (h : Inv m) (a : Access) : Inv (m.step a) := by
  cases a with
  | producer => exact h.produce
  | consumer => exact h.consume
  | push data =>
    rw [Mailbox.step]
    split
    · next hidle =>
      have hwindow := h.window
      rw [hidle] at hwindow
      exact ⟨h.tail_eq, h.head_eq, h.popped_le, h.room, hwindow, rfl, h.consuming, h.free_le,
        h.size_le⟩
    · exact h
  | free_space =>
    rw [Mailbox.step]
    split
    · next hidle =>
      have hwindow := h.window
      rw [hidle] at hwindow
      exact ⟨h.tail_eq, h.head_eq, h.popped_le, h.room, hwindow, rfl, h.consuming, h.free_le,
        h.size_le⟩
    · exact h
  | pop count =>
    rw [Mailbox.step]
    split
    · exact ⟨h.tail_eq, h.head_eq, h.popped_le, h.room, h.window, h.producing, rfl, h.free_le,
        h.size_le⟩
    · exact h
  | size =>
    rw [Mailbox.step]
    split
    · exact ⟨h.tail_eq, h.head_eq, h.popped_le, h.room, h.window, h.producing, rfl, h.free_le,
        h.size_le⟩
    · exact h

theorem inv_initial : Inv {} where
  tail_eq := rfl
  head_eq := rfl
  popped_le := List.prefix_rfl
  room := by decide
  window := holds_nil
  producing := trivial
  consuming := trivial
  free_le v hv := by cases hv
  size_le v hv := by cases hv

theorem inv_after (run : List Access) : Inv (after run) :=
  Runs.run_invariant (P := Inv) Mailbox.step inv_initial (fun _ a h => h.step a) run

/-! ## The ring is a bounded queue -/

/-- What makes the ring a bounded first-in first-out queue, at one moment. -/
structure BoundedFifo (m : Mailbox) : Prop where
  fifo : m.popped <+: m.accepted
  bounded : m.accepted.length - m.popped.length ≤ capacity
  /-- An accepted byte is in its slot until it is popped. -/
  stored : ∀ i (h : i < m.accepted.length), m.popped.length ≤ i →
    m.ring.bytes (slot capacity i) = m.accepted.get ⟨i, h⟩
  /-- The producer does not write to such a slot, which it does next, if at all. -/
  kept : ∀ k, m.next_write = some k → ∀ i < m.accepted.length, m.popped.length ≤ i →
    k ≠ slot capacity i
  size_le : ∀ v, m.size_seen = some v → v ≤ m.accepted.length - m.popped.length
  free_space_le : ∀ v, m.free_seen = some v →
    v ≤ capacity - (m.accepted.length - m.popped.length)

/-- **The byte ring is a bounded queue** after every run of accesses of its two sides,
of any length. -/
theorem bounded_fifo_after (run : List Access) : BoundedFifo (after run) := by
  have h := inv_after run
  generalize after run = m at h
  have hlen := h.length_eq
  have hroom := h.room
  constructor
  · exact h.popped_le
  · omega
  · intro i hi hpop
    have hget := h.window.left (i - m.popped.length) (by omega)
    rw [Nat.add_sub_of_le hpop] at hget
    rw [hget]
    simp [queue, Nat.add_sub_of_le hpop]
  · intro k hk i hi hpop
    have hprod := h.producing
    rw [next_write] at hk
    split at hk
    · next done rest tail head hp =>
      rw [hp] at hprod
      obtain ⟨next, hpush, rfl⟩ := Option.map_eq_some_iff.mp hk
      obtain ⟨-, hfull⟩ := pushes_room (by omega) hprod hpush
      rw [hprod.1, slot_counter SpscByteRing.capacity_dvd]
      exact (slot_ne (by omega) (by omega)).symm
    · cases hk
  · intro v hv
    have := h.size_le v hv
    omega
  · intro v hv
    have := h.free_le v hv
    omega

end Mailbox

end Firmingo
