/-
What the application endpoint holds.

`ApplicationEndpoint::Ring` keeps its bytes in a circular buffer, with a head and a
size; a push copies up to two pieces, a pop reads up to two. Here is the list a ring
stands for: `contents`, oldest byte first. A push appends what it accepts and a pop
takes from the front, which is all the later modules use.
-/
import Firmingo.Backends

set_option autoImplicit false

open Octets

namespace Firmingo

/-! ## Copies into a buffer -/

/-- `copy_at` writes its piece and nothing else. -/
theorem copy_at_getD (buffer data : List Byte) {k : ℕ} (hk : k + data.length ≤ buffer.length) (j : ℕ) :
    (copy_at buffer k data).getD j 0
      = if k ≤ j ∧ j < k + data.length then data.getD (j - k) 0 else buffer.getD j 0 := by
  have hfront : (buffer.take k).length = k := by
    rw [List.length_take]
    omega
  unfold copy_at
  by_cases hlow : j < k
  · rw [if_neg (by omega), List.append_assoc, List.getD_append _ _ _ _ (by omega)]
    simp [List.getD_eq_getElem?_getD, hlow]
  by_cases hmid : j < k + data.length
  · rw [if_pos ⟨by omega, hmid⟩, List.append_assoc, List.getD_append_right _ _ _ _ (by omega), hfront,
      List.getD_append _ _ _ _ (by omega)]
  · have hlen : (buffer.take k ++ data).length = k + data.length := by
      rw [List.length_append, hfront]
    rw [if_neg (by omega), List.getD_append_right _ _ _ _ (by omega), hlen]
    simp only [List.getD_eq_getElem?_getD, List.getElem?_drop]
    congr 2
    omega

theorem copy_at_length (buffer data : List Byte) {k : ℕ} (hk : k + data.length ≤ buffer.length) :
    (copy_at buffer k data).length = buffer.length := by
  simp only [copy_at, List.length_append, List.length_take, List.length_drop]
  omega

/-- What comes to stand before the end of a copy. -/
theorem copy_at_take (buffer data : List Byte) {k : ℕ} (hk : k ≤ buffer.length) :
    (copy_at buffer k data).take (k + data.length) = buffer.take k ++ data := by
  have hfront : (buffer.take k ++ data).length = k + data.length := by
    rw [List.length_append, List.length_take, min_eq_left hk]
  rw [copy_at, ← hfront, List.take_left]

/-- Two copies, one behind the other. -/
theorem copy_at_append (buffer x y : List Byte) {k : ℕ} (h : k + x.length + y.length ≤ buffer.length) :
    copy_at (copy_at buffer k x) (k + x.length) y = copy_at buffer k (x ++ y) := by
  have hfront : (buffer.take k ++ x).length = k + x.length := by
    rw [List.length_append, List.length_take]
    omega
  unfold copy_at
  rw [← hfront, List.take_left, hfront, List.append_assoc _ x y, List.length_append]
  congr 1
  · rw [← hfront, List.drop_append, List.drop_of_length_le (by omega), List.nil_append, Nat.add_sub_cancel_left,
      List.drop_drop, ← Nat.add_assoc, hfront]

@[simp] theorem copy_at_nil (buffer : List Byte) (k : ℕ) : copy_at buffer k [] = buffer := by
  simp [copy_at]

namespace Ring

open ApplicationEndpoint (capacity)

/-! ## The bytes of a ring -/

/-- The head is in the buffer, and the bytes fit it. -/
structure Wf (r : Ring) : Prop where
  length : r.bytes.length = capacity
  head : r.head < capacity
  size : r.size ≤ capacity

theorem wf_initial : Wf {} :=
  ⟨List.length_replicate, by decide, by decide⟩

/-- The byte `i` places after the head. -/
def nth (r : Ring) (i : ℕ) : Byte := r.bytes.getD ((r.head + i) % capacity) 0

/-- What the ring holds, oldest first. -/
def contents (r : Ring) : List Byte := (List.range r.size).map r.nth

@[simp] theorem contents_length (r : Ring) : r.contents.length = r.size := by
  simp [contents]

theorem contents_empty {r : Ring} (h : r.size = 0) : r.contents = [] := by
  simp [contents, h]

/-- `discard` keeps the buffer and forgets what is in it. -/
theorem Wf.cleared {r : Ring} (h : Wf r) : Wf { r with head := 0, size := 0 } :=
  ⟨h.length, Nat.zero_lt_succ _, Nat.zero_le _⟩

/-! ## Pushing -/

section Push

variable (r : Ring) (data : List Byte)

/-- How much a push accepts, where it starts, and how much of it is before the end of
the buffer. -/
def room : ℕ := min data.length (capacity - r.size)
def tail : ℕ := (r.head + r.size) % capacity
def before_end : ℕ := min (r.room data) (capacity - r.tail)

theorem push_count : (r.push data).1 = r.room data := rfl
theorem push_head : (r.push data).2.head = r.head := rfl
theorem push_size : (r.push data).2.size = r.size + r.room data := rfl

/-- The two copies of a push, of which either may be empty. -/
theorem push_bytes : (r.push data).2.bytes
    = copy_at (copy_at r.bytes r.tail (data.take (r.before_end data))) 0
        ((data.drop (r.before_end data)).take (r.room data - r.before_end data)) := by
  have hfirst : (if r.before_end data ≠ 0 then copy_at r.bytes r.tail (data.take (r.before_end data))
      else r.bytes) = copy_at r.bytes r.tail (data.take (r.before_end data)) := by
    split
    · rfl
    · next h =>
      rw [not_not] at h
      rw [h, List.take_zero, copy_at_nil]
  have hpush : (r.push data).2.bytes
      = if r.room data > r.before_end data then
          copy_at (if r.before_end data ≠ 0 then
            copy_at r.bytes r.tail (data.take (r.before_end data)) else r.bytes) 0
            ((data.drop (r.before_end data)).take (r.room data - r.before_end data))
        else if r.before_end data ≠ 0 then
          copy_at r.bytes r.tail (data.take (r.before_end data)) else r.bytes := rfl
  rw [hpush, hfirst]
  split
  · rfl
  · next h =>
    rw [show r.room data - r.before_end data = 0 by omega, List.take_zero, copy_at_nil]

end Push

variable {r : Ring}

/-- A push keeps the indices within the ring. -/
theorem push_wf (h : Wf r) (data : List Byte) : Wf (r.push data).2 := by
  have hsize := h.size
  have hlen := h.length
  have htail : r.tail < capacity := Nat.mod_lt _ (by decide)
  have hfirst : r.before_end data ≤ capacity - r.tail := Nat.min_le_right _ _
  have hroom : r.room data ≤ capacity - r.size := Nat.min_le_right _ _
  have hinner : (copy_at r.bytes r.tail (data.take (r.before_end data))).length = capacity := by
    rw [copy_at_length _ _ (by rw [List.length_take]; omega), hlen]
  refine ⟨?_, h.head, ?_⟩
  · rw [push_bytes, copy_at_length _ _ (by rw [List.length_take, hinner]; omega), hinner]
  · rw [push_size]
    omega

/-- The buffer after a push: the old bytes, and then the new ones around the end. -/
theorem push_nth (h : Wf r) (data : List Byte) {i : ℕ} (hi : i < r.size + r.room data) :
    (r.push data).2.nth i = if i < r.size then r.nth i else data.getD (i - r.size) 0 := by
  have hsize := h.size
  have hlen := h.length
  have hhead := h.head
  have hroom : r.room data = min data.length (capacity - r.size) := rfl
  have hfirst : r.before_end data = min (r.room data) (capacity - r.tail) := rfl
  have htail : r.tail = (r.head + r.size) % capacity := rfl
  rw [nth, push_bytes, push_head]
  generalize r.room data = room at *
  generalize r.before_end data = first at *
  generalize r.tail = tail at *
  simp only [capacity] at *
  have hinner : (copy_at r.bytes tail (data.take first)).length = 256 := by
    rw [copy_at_length _ _ (by rw [List.length_take]; omega), hlen]
  rw [copy_at_getD _ _ (by rw [List.length_take, hinner]; omega),
    copy_at_getD _ _ (by rw [List.length_take]; omega)]
  have hfront : (data.take first).length = first := by
    rw [List.length_take]
    omega
  have hback : ((data.drop first).take (room - first)).length = room - first := by
    rw [List.length_take, List.length_drop]
    omega
  rw [hfront, hback]
  simp only [List.getD_eq_getElem?_getD, List.getElem?_take, List.getElem?_drop]
  by_cases hold : i < r.size
  · -- an old byte is in neither copy
    rw [if_pos hold, if_neg (by omega), if_neg (by omega), nth, List.getD_eq_getElem?_getD]
    rfl
  · rw [if_neg hold]
    by_cases hwrap : tail + (i - r.size) < 256
    · rw [if_neg (by omega), if_pos (by omega), if_pos (by omega)]
      congr 2
      omega
    · rw [if_pos (by omega), if_pos (by omega)]
      congr 2
      omega

/-- **A push appends what it accepts.** -/
theorem push_contents (h : Wf r) (data : List Byte) :
    (r.push data).2.contents = r.contents ++ data.take (r.push data).1 := by
  have hroom : r.room data ≤ data.length := Nat.min_le_left _ _
  refine List.ext_getElem ?_ ?_
  · simp only [contents_length, push_size, List.length_append, List.length_take, push_count]
    omega
  intro i hi _
  rw [contents_length, push_size] at hi
  simp only [contents, push_size, List.getElem_map, List.getElem_range]
  rw [push_nth h data hi]
  split
  · next hold =>
    rw [List.getElem_append_left (by simpa using hold)]
    simp
  · next hnew =>
    rw [List.getElem_append_right (by simpa using hnew), List.getD_eq_getElem _ _ (by omega)]
    simp

/-! ## Popping -/

theorem pop_wf (h : Wf r) (size : ℕ) : Wf (r.pop size).2 := by
  have hhead := h.head
  have hsize := h.size
  refine ⟨h.length, ?_, ?_⟩
  · simp only [pop]
    split
    · decide
    · exact Nat.mod_lt _ (by decide)
  · simp only [pop]
    omega

/-- The place of a byte after a pop. -/
theorem pop_nth (r : Ring) (size : ℕ) {i : ℕ} (hi : i < r.size - min size r.size) :
    (r.pop size).2.nth i = r.nth (min size r.size + i) := by
  have hleft : ¬ r.size - min size r.size = 0 := by omega
  simp only [nth, pop, if_neg hleft]
  congr 1
  simp only [capacity]
  omega

/-- The two pieces of a pop are the first bytes of the ring. -/
theorem pop_bytes (h : Wf r) (size : ℕ) :
    (r.pop size).1 = (List.range (min size r.size)).map r.nth := by
  have hcapacity : capacity = 256 := rfl
  have hlen := h.length
  have hhead := h.head
  have hsize := h.size
  have hback : ∀ count first, (if count > first then r.bytes.take (count - first) else [])
      = r.bytes.take (count - first) := by
    intro count first
    split
    · rfl
    · rw [show count - first = 0 by omega, List.take_zero]
  simp only [pop, hback]
  generalize hcount : min size r.size = count
  generalize hfirst : min count (capacity - r.head) = first
  have hfront : ((r.bytes.drop r.head).take first).length = first := by
    rw [List.length_take, List.length_drop]
    omega
  refine List.ext_getElem ?_ ?_
  · simp only [List.length_append, hfront, List.length_take, List.length_map, List.length_range]
    omega
  intro i hi hi'
  rw [List.length_map, List.length_range] at hi'
  simp only [List.getElem_map, List.getElem_range, nth]
  rw [List.getD_eq_getElem _ _ (by rw [hcapacity]; omega)]
  by_cases hlow : i < first
  · rw [List.getElem_append_left (by omega), List.getElem_take, List.getElem_drop]
    congr 1
    rw [hcapacity]
    omega
  · rw [List.getElem_append_right (by omega), List.getElem_take]
    congr 1
    rw [hcapacity]
    omega

theorem pop_length (h : Wf r) (size : ℕ) : (r.pop size).1.length ≤ size := by
  rw [pop_bytes h, List.length_map, List.length_range]
  exact Nat.min_le_left _ _

theorem push_le (r : Ring) (data : List Byte) : (r.push data).1 ≤ data.length :=
  Nat.min_le_left _ _

/-- **A pop takes from the front.** -/
theorem pop_contents (h : Wf r) (size : ℕ) :
    r.contents = (r.pop size).1 ++ (r.pop size).2.contents := by
  have hsize : r.size = min size r.size + (r.size - min size r.size) := by omega
  rw [pop_bytes h, contents, contents]
  nth_rewrite 1 [hsize]
  rw [List.range_add, List.map_append, List.map_map]
  congr 1
  refine List.map_congr_left ?_
  intro i hi
  rw [List.mem_range] at hi
  exact (pop_nth r size hi).symm

end Ring

end Firmingo
