/-
Framing: `src/core/protocol.h` and `src/core/protocol.cpp`.

A frame is a 16-byte header followed by the payload it announces. `encode`
writes one frame; `Decoder` collects one, first the header and then the payload,
and stops at the first header it does not accept. The decoder's buffer is
modelled by the bytes it holds (`bytes_[0 .. used_)`), so `used_` is a length;
the accessors read fields that are only meaningful in the READY state, exactly
as in the source.

`Decoder.Wf` is what every reachable decoder satisfies and what the sessions
above rely on: a READY decoder holds one complete frame with a valid type and
request identifier, and no buffer ever outgrows the limit.
-/
import Firmingo.Octets

set_option autoImplicit false

open Octets

namespace Firmingo.Protocol

def header_size : ℕ := 16
def max_payload : ℕ := 4096
def min_offer : ℕ := 512

/-! ## Frames -/

/-- `protocol::Type`. -/
inductive FrameType
  | request
  | response
  | serial
  | upload
  | event
  deriving DecidableEq, Repr

/-- The byte a type is sent as. -/
def FrameType.code : FrameType → Byte
  | request => 1
  | response => 2
  | serial => 3
  | upload => 4
  | event => 5

/-- `static_cast<Type>` of a header byte. Only bytes `valid_fields` accepts are
ever cast, so the last case stands for 5. -/
def FrameType.of_code (b : Byte) : FrameType :=
  if b = 1 then request
  else if b = 2 then response
  else if b = 3 then serial
  else if b = 4 then upload
  else event

@[simp] theorem FrameType.of_code_code (t : FrameType) : FrameType.of_code t.code = t := by
  cases t <;> decide

/-- One complete frame. -/
structure Frame where
  type : FrameType
  request : ℕ
  payload : List Byte
  deriving DecidableEq, Repr

/-- `valid_fields`: the known types, and the identifier rule of each. -/
def valid_fields (type : Byte) (request : ℕ) : Bool :=
  if type < 1 || type > 5 then false
  else if type = 3 || type = 5 then request == 0
  else request != 0

/-- The magic, `FMGO`. -/
def magic : List Byte := [0x46, 0x4d, 0x47, 0x4f]

/-- The header `encode` writes. -/
def header (type : FrameType) (request size : ℕ) : List Byte :=
  magic ++ [1, type.code] ++ bytes16_be 0 ++ bytes32_be request ++ bytes32_be size

/-- `encode`: the frame's bytes, or `none` where the source returns zero. The
null-pointer tests have no counterpart here. -/
def encode (capacity : ℕ) (type : FrameType) (request : ℕ) (payload : List Byte) :
    Option (List Byte) :=
  if payload.length > max_payload || capacity < header_size + payload.length
      || !valid_fields type.code request then none
  else some (header type request payload.length ++ payload)

/-- The bytes of a frame. -/
def wire (f : Frame) : List Byte := header f.type f.request f.payload.length ++ f.payload

@[simp] theorem header_length (type : FrameType) (request size : ℕ) :
    (header type request size).length = header_size := by
  simp [header, magic, header_size]

/-! ## The decoder -/

/-- `protocol::Decode`. -/
inductive Decode
  | incomplete
  | ready
  | malformed
  | unsupported_version
  | oversized
  deriving DecidableEq, Repr

/-- `protocol::Decoder`; `bytes` is the used part of the source's buffer. -/
structure Decoder where
  bytes : List Byte := []
  limit : ℕ := max_payload
  state : Decode := .incomplete
  deriving DecidableEq, Repr

namespace Decoder

def started (d : Decoder) : Bool := d.bytes.length != 0
def type_code (d : Decoder) : Byte := d.bytes.getD 5 0
def type (d : Decoder) : FrameType := .of_code d.type_code
def request (d : Decoder) : ℕ := word32_be (d.bytes.drop 8)
def size (d : Decoder) : ℕ := word32_be (d.bytes.drop 12)
def payload (d : Decoder) : List Byte := d.bytes.drop header_size

/-- The frame a READY decoder holds. -/
def frame (d : Decoder) : Frame := ⟨d.type, d.request, d.payload⟩

/-- `Decoder::reset`: the frame or error goes, the negotiated limit stays. -/
def reset (d : Decoder) : Decoder := { d with bytes := [], state := .incomplete }

/-- `Decoder::negotiate`. -/
def negotiate (d : Decoder) (peer_offer : ℕ) : Option Decoder :=
  if d.started || d.state != .incomplete || peer_offer < min_offer || peer_offer > 65536 then none
  else some { d with limit := min max_payload peer_offer }

/-- `Decoder::needed`: the rest of the header, then the rest of the payload. -/
def needed (d : Decoder) : ℕ :=
  if d.state != .incomplete then 0
  else if d.bytes.length < header_size then header_size - d.bytes.length
  else header_size + d.size - d.bytes.length

/-- The verdict of `feed` on a buffer that has just grown, in the order the source
tests it. -/
def verdict (d : Decoder) : Decode :=
  if d.bytes.length < header_size then d.state
  else if d.bytes.take 4 ≠ magic || word16_be (d.bytes.drop 6) ≠ 0
      || !valid_fields d.type_code d.request then .malformed
  else if d.bytes.getD 4 0 ≠ 1 then .unsupported_version
  else if d.size > d.limit then .oversized
  else if d.bytes.length = header_size + d.size then .ready
  else d.state

/-- `Decoder::feed`: consumes at most `needed` bytes of the input. The count the
source returns is `d.fed input`. -/
def fed (d : Decoder) (input : List Byte) : ℕ := min input.length d.needed

def feed (d : Decoder) (input : List Byte) : Decoder :=
  if d.fed input = 0 then d
  else
    let d := { d with bytes := d.bytes ++ input.take (d.fed input) }
    { d with state := d.verdict }

/-- The caller's loop around `feed`: the unconsumed tail is fed again until a call
consumes nothing. The tail that is left comes back with the decoder. -/
def feed_all (d : Decoder) (input : List Byte) (fuel : ℕ) : Decoder × List Byte :=
  match fuel with
  | 0 => (d, input)
  | fuel + 1 =>
    if d.fed input = 0 then (d, input)
    else feed_all (d.feed input) (input.drop (d.fed input)) fuel

/-! ### Small facts -/

@[simp] theorem reset_limit (d : Decoder) : d.reset.limit = d.limit := rfl
@[simp] theorem reset_state (d : Decoder) : d.reset.state = .incomplete := rfl
@[simp] theorem reset_bytes (d : Decoder) : d.reset.bytes = [] := rfl

theorem feed_limit (d : Decoder) (input : List Byte) : (d.feed input).limit = d.limit := by
  unfold feed
  split <;> rfl

variable {d : Decoder}

theorem negotiate_eq {d' : Decoder} {offer : ℕ} (h : d.negotiate offer = some d') :
    d' = { d with limit := min max_payload offer } ∧ min_offer ≤ offer ∧ offer ≤ 65536 := by
  unfold negotiate at h
  split at h
  · cases h
  · rename_i hn
    simp only [Bool.or_eq_true, not_or, decide_eq_true_eq, not_lt, gt_iff_lt] at hn
    cases h
    exact ⟨rfl, by omega, by omega⟩

/-! ### The decoder's invariant -/

/-- The header the source accepts: magic, flags, fields, version and size. -/
structure HeaderOk (d : Decoder) : Prop where
  long : header_size ≤ d.bytes.length
  magic_eq : d.bytes.take 4 = magic
  flags : word16_be (d.bytes.drop 6) = 0
  fields : valid_fields d.type_code d.request = true
  version : d.bytes.getD 4 0 = 1
  size_le : d.size ≤ d.limit

/-- What every decoder a session holds satisfies. -/
structure Wf (d : Decoder) : Prop where
  limit_ge : min_offer ≤ d.limit
  limit_le : d.limit ≤ max_payload
  incomplete : d.state = .incomplete → d.bytes.length < header_size ∨
    (HeaderOk d ∧ d.bytes.length < header_size + d.size)
  ready : d.state = .ready → HeaderOk d ∧ d.bytes.length = header_size + d.size

theorem wf_initial : Wf {} where
  limit_ge := by decide
  limit_le := by decide
  incomplete := fun _ => .inl (by decide)
  ready := fun h => by cases h

theorem Wf.reset (h : Wf d) : Wf d.reset where
  limit_ge := h.limit_ge
  limit_le := h.limit_le
  incomplete := fun _ => .inl (by simp [header_size])
  ready := fun h => by cases h

theorem Wf.negotiate {d' : Decoder} {offer : ℕ} (hn : d.negotiate offer = some d') : Wf d'.reset := by
  obtain ⟨rfl, h1, h2⟩ := negotiate_eq hn
  simp only [min_offer] at h1
  refine ⟨?_, ?_, fun _ => .inl (by simp [header_size]), fun h => by cases h⟩
  · simp only [reset_limit, min_offer, max_payload]; omega
  · simp only [reset_limit, max_payload]; omega

/-- A header verdict of READY or "still incomplete" on a full header means that
every header test passed. -/
theorem verdict_ok (hlen : header_size ≤ d.bytes.length)
    (hs : d.state = .incomplete) (hv : d.verdict = .incomplete ∨ d.verdict = .ready) :
    HeaderOk d ∧ (d.verdict = .ready ↔ d.bytes.length = header_size + d.size) := by
  unfold verdict at hv ⊢
  rw [if_neg (by omega)] at hv ⊢
  split at hv
  · rcases hv with h | h <;> cases h
  · rename_i hm
    split at hv
    · rcases hv with h | h <;> cases h
    · rename_i hver
      split at hv
      · rcases hv with h | h <;> cases h
      · rename_i hsz
        simp only [ne_eq, Bool.or_eq_true, decide_eq_true_eq, Bool.not_eq_eq_eq_not,
          Bool.not_true, not_or, not_not, Bool.not_eq_false] at hm hver
        refine ⟨⟨hlen, hm.1.1, hm.1.2, hm.2, hver, by omega⟩, ?_⟩
        rw [if_neg (by simp [hm.1.1, hm.1.2, hm.2]), if_neg (by simp only [hver]; decide),
          if_neg hsz]
        by_cases heq : d.bytes.length = header_size + d.size
        · simp [heq]
        · simp [heq, hs]

/-- Only an incomplete decoder consumes anything. -/
theorem fed_eq_zero (h : d.state ≠ .incomplete) (input : List Byte) : d.fed input = 0 := by
  simp [fed, needed, h]

theorem feed_eq_self (h : d.state ≠ .incomplete) (input : List Byte) : d.feed input = d := by
  simp [feed, fed_eq_zero h]

/-- The size field is fixed once the header is complete. -/
theorem size_append (h : header_size ≤ d.bytes.length) (more : List Byte) :
    ({ d with bytes := d.bytes ++ more } : Decoder).size = d.size := by
  have hlen : 4 ≤ (d.bytes.drop 12).length := by
    simp only [List.length_drop, header_size] at h ⊢; omega
  simp only [size, word32_be]
  rw [List.drop_append_of_le_length (by simp only [header_size] at h; omega)]
  simp only [List.getD_eq_getElem?_getD]
  rw [List.getElem?_append_left (by omega), List.getElem?_append_left (by omega),
    List.getElem?_append_left (by omega), List.getElem?_append_left (by omega)]

/-- **`feed` keeps the invariant.** -/
theorem Wf.feed (h : Wf d) (input : List Byte) : Wf (d.feed input) := by
  by_cases hs : d.state = .incomplete
  swap
  · rw [feed_eq_self hs]; exact h
  by_cases hz : d.fed input = 0
  · simp only [Decoder.feed, hz, if_true]; exact h
  set d1 : Decoder := { d with bytes := d.bytes ++ input.take (d.fed input) } with hd1
  have hfeed : d.feed input = { d1 with state := d1.verdict } := by
    simp only [Decoder.feed, hz, if_false, hd1]
  have hlen : d1.bytes.length = d.bytes.length + d.fed input := by
    simp only [hd1, List.length_append, List.length_take, fed]; omega
  -- the buffer stops at the end of the header, or at the end of the frame
  have hcap : header_size ≤ d1.bytes.length → d1.bytes.length ≤ header_size + d1.size := by
    intro hge
    have hfed : d.fed input ≤ d.needed := Nat.min_le_right _ _
    simp only [needed, hs] at hfed
    by_cases hshort : d.bytes.length < header_size
    · simp only [hshort] at hfed
      simp at hfed
      omega
    · have hsize : d1.size = d.size := size_append (by omega) _
      simp only [hshort] at hfed
      simp at hfed
      rcases h.incomplete hs with hlt | ⟨-, hlt⟩ <;> omega
  rw [hfeed]
  refine ⟨h.limit_ge, h.limit_le, ?_, ?_⟩
  · intro hv
    by_cases hge : header_size ≤ d1.bytes.length
    · obtain ⟨hok, hiff⟩ := verdict_ok hge hs (.inl hv)
      have hne : d1.bytes.length ≠ header_size + d1.size := by
        intro heq
        have hready : d1.verdict = .ready := hiff.mpr heq
        have hv' : d1.verdict = .incomplete := hv
        rw [hready] at hv'
        cases hv'
      have hle := hcap hge
      exact .inr ⟨⟨hok.1, hok.2, hok.3, hok.4, hok.5, hok.6⟩, lt_of_le_of_ne hle hne⟩
    · exact .inl (by simpa using hge)
  · intro hv
    have hge : header_size ≤ d1.bytes.length := by
      by_contra hlt
      have hv' : d1.verdict = .ready := hv
      rw [verdict, if_pos (by omega)] at hv'
      rw [show d1.state = d.state from rfl, hs] at hv'
      cases hv'
    obtain ⟨hok, hiff⟩ := verdict_ok hge hs (.inr hv)
    exact ⟨⟨hok.1, hok.2, hok.3, hok.4, hok.5, hok.6⟩, hiff.mp hv⟩

/-- A READY decoder's payload has the announced size. -/
theorem Wf.payload_length (h : Wf d) (hr : d.state = .ready) : d.payload.length = d.size := by
  have := (h.ready hr).2
  simp only [payload, List.length_drop]
  omega

/-- A READY request or upload frame has a nonzero identifier. -/
theorem Wf.request_ne_zero (h : Wf d) (hr : d.state = .ready)
    (ht : d.type ≠ .serial) (he : d.type ≠ .event) : d.request ≠ 0 := by
  have hf := (h.ready hr).1.fields
  intro h0
  simp only [valid_fields, h0] at hf
  split at hf
  · cases hf
  · rename_i hrange
    split at hf
    · rename_i htype
      simp only [Bool.or_eq_true, decide_eq_true_eq] at htype
      rcases htype with h3 | h5
      · exact ht (by simp [type, h3, FrameType.of_code])
      · exact he (by simp [type, h5, FrameType.of_code])
    · cases hf

/-! ### Encoding and decoding one frame -/

/-- What the accessors read from a header `encode` wrote. -/
theorem read_header (type : FrameType) {request size : ℕ} (hr : request < 2 ^ 32)
    (hs : size < 2 ^ 32) (limit : ℕ) (state : Decode) (rest : List Byte) :
    let d : Decoder := ⟨header type request size ++ rest, limit, state⟩
    d.type_code = type.code ∧ d.request = request ∧ d.size = size ∧ d.bytes.take 4 = magic
      ∧ word16_be (d.bytes.drop 6) = 0 ∧ d.bytes.getD 4 0 = 1 := by
  have hbytes : header type request size ++ rest
      = magic ++ ([1, type.code] ++ bytes16_be 0 ++ (bytes32_be request
          ++ (bytes32_be size ++ rest))) := by
    simp only [header, List.append_assoc]
  have h8 : (header type request size ++ rest).drop 8
      = bytes32_be request ++ (bytes32_be size ++ rest) := by
    rw [hbytes]; simp [magic, bytes16_be]
  have h12 : (header type request size ++ rest).drop 12 = bytes32_be size ++ rest := by
    rw [hbytes]; simp [magic, bytes16_be, bytes32_be]
  refine ⟨?_, ?_, ?_, ?_, ?_, ?_⟩
  · simp [type_code, hbytes, magic]
  · simp only [Decoder.request, h8]; exact word32_be_bytes32_be hr _
  · simp only [Decoder.size, h12]; exact word32_be_bytes32_be hs _
  · simp [hbytes, magic]
  · simp [hbytes, magic, bytes16_be, word16_be]
  · simp [hbytes, magic]

/-- The verdict on a header `encode` wrote, followed by part of its payload. -/
theorem verdict_header (type : FrameType) {request size : ℕ} (hr : request < 2 ^ 32)
    (hv : valid_fields type.code request = true) {limit : ℕ} (hl : size ≤ limit)
    (hlim : limit ≤ max_payload) (rest : List Byte) :
    (⟨header type request size ++ rest, limit, .incomplete⟩ : Decoder).verdict
      = if rest.length = size then .ready else .incomplete := by
  have hs : size < 2 ^ 32 := by simp only [max_payload] at hlim; omega
  obtain ⟨h1, h2, h3, h4, h5, h6⟩ := read_header type hr hs limit .incomplete rest
  have hlen : (header type request size ++ rest).length = header_size + rest.length := by
    rw [List.length_append, header_length]
  simp only [verdict, h1, h2, h3, h4, h5, h6, hv, hlen]
  rw [if_neg (by omega)]
  simp only [if_false, ne_eq, not_true_eq_false, decide_false, Bool.not_true, Bool.or_self,
    Bool.false_eq_true, gt_iff_lt, Nat.not_lt.mpr hl, Nat.add_left_cancel_iff]

/-- **Decoding inverts encoding.** A decoder at rest, with a limit the payload
fits, reads an encoded frame to its end and is READY with exactly that frame. -/
theorem feed_all_encode {capacity : ℕ} {f : Frame} {out : List Byte}
    (h : encode capacity f.type f.request f.payload = some out) (hr : f.request < 2 ^ 32)
    {limit : ℕ} (hl : f.payload.length ≤ limit) (hlim : limit ≤ max_payload) :
    ∃ d, ({ limit := limit } : Decoder).feed_all out (out.length + 1) = (d, [])
      ∧ d.state = .ready ∧ d.frame = f := by
  obtain ⟨type, request, payload⟩ := f
  dsimp only at h hr hl
  unfold encode at h
  split at h
  · cases h
  rename_i hn
  simp only [Bool.or_eq_true, not_or, Bool.not_eq_true', Bool.not_eq_false] at hn
  have hv := hn.2
  cases h
  have hs : payload.length < 2 ^ 32 := by simp only [max_payload] at hlim; omega
  set head := header type request payload.length with hhead
  have hhl : head.length = header_size := header_length _ _ _
  -- the first call takes the header, the second the payload
  have hd0 : ({ limit := limit } : Decoder).fed (head ++ payload) = header_size := by
    simp [fed, needed, hhl, header_size]
  have hd1 : ({ limit := limit } : Decoder).feed (head ++ payload)
      = ⟨head, limit, if payload.length = 0 then .ready else .incomplete⟩ := by
    have hverdict := verdict_header type hr hv hl hlim []
    rw [List.append_nil, List.length_nil] at hverdict
    simp only [feed, hd0, List.nil_append]
    rw [if_neg (by simp [header_size]), List.take_left' hhl, hverdict]
    simp only [eq_comm]
  obtain ⟨h1, h2, h3, -, -, -⟩ := read_header type hr hs limit .ready payload
  have hframe : (⟨head ++ payload, limit, .ready⟩ : Decoder).frame = ⟨type, request, payload⟩ := by
    simp only [frame, Decoder.type, Decoder.payload] at h1 h2 ⊢
    rw [h1, h2, FrameType.of_code_code, List.drop_left' hhl]
  have hlenout : (head ++ payload).length + 1 = payload.length + 15 + 2 := by
    rw [List.length_append, hhl]; simp only [header_size]; omega
  rw [hlenout, feed_all, hd0, if_neg (by simp [header_size]), hd1, List.drop_left' hhl]
  by_cases hz : payload.length = 0
  · have hnil : payload = [] := List.length_eq_zero_iff.mp hz
    subst hnil
    refine ⟨⟨head, limit, .ready⟩, ?_, rfl, by simpa using hframe⟩
    simp [feed_all, fed]
  · have hd2 : (⟨head, limit, .incomplete⟩ : Decoder).fed payload = payload.length := by
      obtain ⟨-, -, hsz, -, -, -⟩ := read_header type hr hs limit .incomplete []
      rw [List.append_nil, ← hhead] at hsz
      simp only [fed, needed, hsz, hhl]
      simp
    have hd3 : (⟨head, limit, .incomplete⟩ : Decoder).feed payload
        = ⟨head ++ payload, limit, .ready⟩ := by
      simp only [feed, hd2, hz, if_false, List.take_length]
      rw [verdict_header type hr hv hl hlim payload, if_pos rfl]
    refine ⟨⟨head ++ payload, limit, .ready⟩, ?_, rfl, hframe⟩
    rw [if_neg hz, show payload.length + 15 + 1 = (payload.length + 15) + 1 from rfl, feed_all,
      hd2, if_neg hz, hd3, List.drop_length, feed_all.eq_def]
    simp [fed]

end Decoder

end Firmingo.Protocol
