/-
Streams of frames: what a caller of `protocol::Decoder` gets out of a byte stream.

The caller feeds whatever arrives, feeds the tail that was not consumed again, and
after each READY frame takes the frame and calls `reset`. `Receiver` is that loop.
Frames are a prefix code: the header announces the length. So a stream has one longest
parse into frames, and the state of the receiver is a function of the stream, however
it was cut into chunks.
-/
import Firmingo.PrefixCodes
import Firmingo.Protocol
import Firmingo.Runs

set_option autoImplicit false

open Octets PrefixCodes

namespace Firmingo.Protocol

/-! ## Frames and their bytes -/

/-- A frame that `encode` writes and that a decoder with this limit takes. -/
structure Frame.Fits (limit : ℕ) (f : Frame) : Prop where
  request_lt : f.request < 2 ^ 32
  fields : valid_fields f.type.code f.request = true
  payload_le : f.payload.length ≤ limit

theorem encode_wire {limit : ℕ} {f : Frame} (h : f.Fits limit) (hl : limit ≤ max_payload) :
    encode (header_size + max_payload) f.type f.request f.payload = some (wire f) := by
  have hp := h.payload_le
  have hlong : ¬ f.payload.length > max_payload := by omega
  have hroom : ¬ header_size + max_payload < header_size + f.payload.length := by omega
  simp [encode, wire, hlong, hroom, h.fields]

/-- A header that `encode` wrote is accepted, and its fields are read back. -/
theorem header_ok {limit : ℕ} {f : Frame} (h : f.Fits limit) (hl : limit ≤ max_payload)
    (rest : List Byte) (state : Decode) :
    let d : Decoder := ⟨header f.type f.request f.payload.length ++ rest, limit, state⟩
    d.HeaderOk ∧ d.size = f.payload.length ∧ d.type = f.type ∧ d.request = f.request := by
  have hp := h.payload_le
  have hs : f.payload.length < 2 ^ 32 := by
    simp only [max_payload] at hl
    omega
  obtain ⟨h1, h2, h3, h4, h5, h6⟩ := Decoder.read_header f.type h.request_lt hs limit state rest
  refine ⟨⟨?_, h4, h5, ?_, h6, ?_⟩, h3, ?_, h2⟩
  · simp only [List.length_append, header_length]
    omega
  · rw [h1, h2]
    exact h.fields
  · exact h3.le.trans hp
  · rw [Decoder.type, h1, FrameType.of_code_code]

/-- The first 16 bytes decide how long a frame is, so no frame starts another. -/
theorem wire_prefix_free {limit : ℕ} (hl : limit ≤ max_payload) : PrefixFree wire (Frame.Fits limit) := by
  intro f g s hf hg hfs hgs
  obtain ⟨restf, hrestf⟩ := hfs
  obtain ⟨restg, hrestg⟩ := hgs
  rw [wire, List.append_assoc] at hrestf hrestg
  obtain ⟨-, hsizef, htypef, hrequestf⟩ := header_ok hf hl (f.payload ++ restf) .ready
  obtain ⟨-, hsizeg, htypeg, hrequestg⟩ := header_ok hg hl (g.payload ++ restg) .ready
  rw [hrestf] at hsizef htypef hrequestf
  rw [hrestg] at hsizeg htypeg hrequestg
  have htype : f.type = g.type := htypef.symm.trans htypeg
  have hrequest : f.request = g.request := hrequestf.symm.trans hrequestg
  have hsize : f.payload.length = g.payload.length := hsizef.symm.trans hsizeg
  have hstream := hrestf.trans hrestg.symm
  rw [htype, hrequest, hsize, List.append_cancel_left_eq] at hstream
  have hpayload : f.payload = g.payload := (List.append_inj hstream hsize).1
  obtain ⟨type, request, payload⟩ := f
  simp only at htype hrequest hpayload
  rw [htype, hrequest, hpayload]

/-- A valid code names its frame type. -/
theorem FrameType.code_of_code {code : Byte} {request : ℕ} (h : valid_fields code request = true) :
    (FrameType.of_code code).code = code := by
  unfold valid_fields at h
  split at h
  · cases h
  · next hrange =>
    simp only [Bool.or_eq_true, decide_eq_true_eq, not_or, UInt8.not_lt] at hrange
    have hcases : code = 1 ∨ code = 2 ∨ code = 3 ∨ code = 4 ∨ code = 5 := by
      have h1 : 1 ≤ code.toNat := hrange.1
      have h5 : code.toNat ≤ 5 := UInt8.le_iff_toNat_le.mp hrange.2
      simp only [← UInt8.toNat_inj]
      show code.toNat = 1 ∨ code.toNat = 2 ∨ code.toNat = 3 ∨ code.toNat = 4 ∨ code.toNat = 5
      omega
    rcases hcases with rfl | rfl | rfl | rfl | rfl <;> rfl

theorem take_two {b : List Byte} (h : 2 ≤ b.length) : b.take 2 = [b.getD 0 0, b.getD 1 0] := by
  rcases b with _ | ⟨b0, _ | ⟨b1, rest⟩⟩
  · simp at h
  · simp at h
  · simp

variable {d : Decoder}

/-- An accepted header is the one `encode` writes for its fields. -/
theorem Decoder.HeaderOk.header_eq (h : d.HeaderOk) :
    header d.type d.request d.size = d.bytes.take header_size := by
  have hlong := h.long
  simp only [header_size] at hlong
  have hflags : bytes16_be 0 = (d.bytes.drop 6).take 2 := by
    rw [take_two (by rw [List.length_drop]; omega)]
    have hzero := h.flags
    simp only [word16_be] at hzero
    have h0 : ((d.bytes.drop 6).getD 0 0).toNat = 0 := by omega
    have h1 : ((d.bytes.drop 6).getD 1 0).toNat = 0 := by omega
    rw [UInt8.toNat_inj.mp (h0.trans UInt8.toNat_zero.symm),
      UInt8.toNat_inj.mp (h1.trans UInt8.toNat_zero.symm)]
    rfl
  have hversion : [1, d.type.code] = (d.bytes.drop 4).take 2 := by
    rw [take_two (by rw [List.length_drop]; omega), Decoder.type, FrameType.code_of_code h.fields]
    have h4 := h.version
    simp only [List.getD_eq_getElem?_getD, List.getElem?_drop] at h4 ⊢
    rw [h4]
    simp [Decoder.type_code]
  rw [header, ← h.magic_eq, hversion, hflags, Decoder.request, Decoder.size,
    bytes32_be_word32_be (by rw [List.length_drop]; omega),
    bytes32_be_word32_be (by rw [List.length_drop]; omega)]
  -- the five fields are consecutive pieces of the first 16 bytes
  rw [← List.take_add, ← List.take_add, ← List.take_add, ← List.take_add]
  rfl

variable {input : List Byte}

namespace Decoder

/-- The frame of a READY decoder is the bytes it holds. -/
theorem Wf.wire_frame (h : Wf d) (hr : d.state = .ready) : wire d.frame = d.bytes := by
  have hok := (h.ready hr).1
  show header d.type d.request d.payload.length ++ d.payload = d.bytes
  rw [h.payload_length hr, hok.header_eq]
  exact List.take_append_drop _ _

theorem Wf.frame_fits (h : Wf d) (hr : d.state = .ready) : d.frame.Fits d.limit := by
  have hok := (h.ready hr).1
  refine ⟨word32_be_lt _, ?_, ?_⟩
  · show valid_fields (FrameType.of_code d.type_code).code d.request = true
    rw [FrameType.code_of_code hok.fields]
    exact hok.fields
  · show d.payload.length ≤ d.limit
    rw [h.payload_length hr]
    exact hok.size_le

/-- A decoder that is collecting always wants more. -/
theorem Wf.needed_pos (h : Wf d) (hs : d.state = .incomplete) : 0 < d.needed := by
  unfold needed
  rw [if_neg (by simp [hs])]
  split
  · omega
  · next hlong =>
    rcases h.incomplete hs with hshort | ⟨-, hshort⟩
    · exact absurd hshort hlong
    · omega

/-- The verdict on an accepted header, before any of the payload. -/
theorem HeaderOk.verdict_header (h : HeaderOk d) (hl : d.limit ≤ max_payload) :
    (⟨d.bytes.take header_size, d.limit, .incomplete⟩ : Decoder).verdict
      = if d.size = 0 then .ready else .incomplete := by
  have hcode := FrameType.code_of_code h.fields
  have hfields : valid_fields d.type.code d.request = true := by
    rw [Decoder.type, hcode]
    exact h.fields
  have hverdict := Decoder.verdict_header d.type (word32_be_lt _) hfields h.size_le hl []
  rw [List.append_nil, List.length_nil] at hverdict
  rw [← h.header_eq]
  simp only [eq_comm (a := d.size)]
  exact hverdict

/-- A refusal comes with the last byte of the header. -/
theorem Wf.refused (h : Wf d) (hs : d.state = .incomplete) (hfed : d.fed input ≠ 0)
    (hn : (d.feed input).state ≠ .incomplete) (hr : (d.feed input).state ≠ .ready) :
    (d.feed input).bytes.length = header_size ∧
      (⟨(d.feed input).bytes, d.limit, .incomplete⟩ : Decoder).verdict = (d.feed input).state := by
  set d' : Decoder := { d with bytes := d.bytes ++ input.take (d.fed input) } with hd'
  have hfeed : d.feed input = { d' with state := d'.verdict } := by
    rw [Decoder.feed, if_neg hfed]
  have hstart : d' = ⟨d'.bytes, d.limit, .incomplete⟩ := by
    rw [hd', ← hs]
  have hlen : d'.bytes.length = d.bytes.length + d.fed input := by
    simp only [hd', List.length_append, List.length_take, fed]
    omega
  rw [hfeed] at hn hr ⊢
  refine ⟨?_, by rw [← hstart]⟩
  have hlong : header_size ≤ d'.bytes.length := by
    by_contra hshort
    have hv : d'.verdict = .incomplete := by
      rw [verdict, if_pos (by omega)]
      exact hs
    exact hn hv
  have hmax : d.fed input ≤ d.needed := Nat.min_le_right _ _
  rcases h.incomplete hs with hshort | ⟨hok, hshort⟩
  · rw [needed, if_neg (by simp [hs]), if_pos hshort] at hmax
    show d'.bytes.length = header_size
    omega
  · -- an accepted header stays accepted while the payload arrives
    exfalso
    have hfront : d'.bytes = header d.type d.request d.size
        ++ (d.bytes.drop header_size ++ input.take (d.fed input)) := by
      rw [hok.header_eq, ← List.append_assoc, List.take_append_drop]
    have hfields : valid_fields d.type.code d.request = true := by
      rw [Decoder.type, FrameType.code_of_code hok.fields]
      exact hok.fields
    have hrequest : d.request < 2 ^ 32 := word32_be_lt _
    have hv := Decoder.verdict_header d.type hrequest hfields hok.size_le h.limit_le
      (d.bytes.drop header_size ++ input.take (d.fed input))
    rw [← hfront, ← hstart] at hv
    split at hv
    · exact hr hv
    · exact hn hv

end Decoder

/-! ## The receiver -/

/-- The decoder, the frames taken from it, and the bytes it did not consume. -/
structure Receiver where
  decoder : Decoder
  frames : List Frame := []
  left : List Byte := []
  deriving DecidableEq

namespace Receiver

/-- The caller's loop over one piece of input: the unconsumed tail is fed again until
a call consumes nothing, and a READY frame is taken out. -/
def consume (r : Receiver) (input : List Byte) : ℕ → Receiver
  | 0 => { r with left := r.left ++ input }
  | fuel + 1 =>
    if r.decoder.fed input = 0 then { r with left := r.left ++ input }
    else
      let d := r.decoder.feed input
      let rest := input.drop (r.decoder.fed input)
      if d.state = .ready then
        consume { r with decoder := d.reset, frames := r.frames ++ [d.frame] } rest fuel
      else consume { r with decoder := d } rest fuel

/-- One chunk arrives. -/
def receive (r : Receiver) (chunk : List Byte) : Receiver := r.consume chunk (chunk.length + 1)

/-- The chunks of a stream, from a decoder at rest. -/
def receive_all (limit : ℕ) (chunks : List (List Byte)) : Receiver :=
  Runs.run receive ⟨{ limit := limit }, [], []⟩ chunks

/-- The decoder in front of the rest of a stream, where no frame starts: it holds the
rest, or the 16 bytes of a header it does not accept. -/
def settled (limit : ℕ) (rest : List Byte) : Decoder :=
  let verdict := (⟨rest.take header_size, limit, .incomplete⟩ : Decoder).verdict
  if rest.length < header_size ∨ verdict = .incomplete then ⟨rest, limit, .incomplete⟩
  else ⟨rest.take header_size, limit, verdict⟩

/-- What a receiver has made of the stream so far. -/
structure Parsed (limit : ℕ) (stream : List Byte) (r : Receiver) : Prop where
  limit_eq : r.decoder.limit = limit
  wf : r.decoder.Wf
  split : stream = r.frames.flatMap wire ++ (r.decoder.bytes ++ r.left)
  fits : ∀ f ∈ r.frames, f.Fits limit
  not_ready : r.decoder.state ≠ .ready
  collecting : r.decoder.state = .incomplete → r.left = []
  refused : r.decoder.state ≠ .incomplete → r.decoder.bytes.length = header_size ∧
    (⟨r.decoder.bytes, limit, .incomplete⟩ : Decoder).verdict = r.decoder.state

variable {limit : ℕ} {stream : List Byte} {r : Receiver}

theorem parsed_initial (hmin : min_offer ≤ limit) (hmax : limit ≤ max_payload) :
    Parsed limit [] ⟨{ limit := limit }, [], []⟩ where
  limit_eq := rfl
  wf := ⟨hmin, hmax, fun _ => .inl (by simp [header_size]), fun h => by cases h⟩
  split := rfl
  fits f hf := by cases hf
  not_ready h := by cases h
  collecting _ := rfl
  refused h := absurd rfl h

/-- One call of `feed` that consumes something. -/
theorem Parsed.feed (h : Parsed limit stream r) (hfed : r.decoder.fed input ≠ 0) :
    let d := r.decoder.feed input
    Parsed limit (stream ++ input.take (r.decoder.fed input))
      (if d.state = .ready then { r with decoder := d.reset, frames := r.frames ++ [d.frame] }
        else { r with decoder := d }) := by
  have hs : r.decoder.state = .incomplete := by
    by_contra hs
    exact hfed (Decoder.fed_eq_zero hs input)
  have hleft := h.collecting hs
  have hwf := h.wf.feed input
  have hlimit : (r.decoder.feed input).limit = limit := by
    rw [Decoder.feed_limit, h.limit_eq]
  have hbytes : (r.decoder.feed input).bytes
      = r.decoder.bytes ++ input.take (r.decoder.fed input) := by
    rw [Decoder.feed, if_neg hfed]
  have hsplit : stream ++ input.take (r.decoder.fed input)
      = r.frames.flatMap wire ++ (r.decoder.feed input).bytes := by
    rw [h.split, hleft, List.append_nil, hbytes, List.append_assoc]
  intro d
  split
  · next hready =>
    refine ⟨hlimit, hwf.reset, ?_, ?_, by simp, fun _ => hleft, fun hn => absurd rfl hn⟩
    · -- the bytes of the frame move from the decoder to the list
      rw [hsplit, List.flatMap_append, List.flatMap_singleton, hwf.wire_frame hready]
      simp [d, hleft]
    · intro f hf
      rcases List.mem_append.mp hf with hf | hf
      · exact h.fits f hf
      · rw [List.mem_singleton.mp hf, ← hlimit]
        exact hwf.frame_fits hready
  · next hready =>
    refine ⟨hlimit, hwf, ?_, h.fits, hready, fun _ => hleft, ?_⟩
    · rw [hsplit, hleft, List.append_nil]
    · intro hn
      have hrefused := h.wf.refused hs hfed hn hready
      rw [h.limit_eq] at hrefused
      exact hrefused

/-- The loop consumes the whole input, or stops at a refused header. -/
theorem Parsed.consume (h : Parsed limit stream r) {fuel : ℕ}
    (hfuel : input.length < fuel) : Parsed limit (stream ++ input) (r.consume input fuel) := by
  induction fuel generalizing stream r input with
  | zero => omega
  | succ fuel ih =>
    rw [Receiver.consume]
    -- a turn that takes nothing has no input left or stands at a refused header
    by_cases hfed : r.decoder.fed input = 0
    · rw [if_pos hfed]
      refine ⟨h.limit_eq, h.wf, ?_, h.fits, h.not_ready, ?_, h.refused⟩
      · rw [h.split]
        simp only [List.append_assoc]
      · intro hs
        have hpos := h.wf.needed_pos hs
        have hnil : input = [] := by
          rw [← List.length_eq_zero_iff]
          rw [Decoder.fed] at hfed
          omega
        show r.left ++ input = []
        rw [h.collecting hs, hnil, List.append_nil]
    · rw [if_neg hfed]
      have hstep := h.feed hfed
      have hle : r.decoder.fed input ≤ input.length := Nat.min_le_left _ _
      have hrest : (input.drop (r.decoder.fed input)).length < fuel := by
        rw [List.length_drop]
        omega
      have hstream : stream ++ input
          = stream ++ input.take (r.decoder.fed input) ++ input.drop (r.decoder.fed input) := by
        rw [List.append_assoc, List.take_append_drop]
      rw [hstream]
      simp only at hstep ⊢
      split
      · next hready =>
        rw [if_pos hready] at hstep
        exact ih hstep hrest
      · next hready =>
        rw [if_neg hready] at hstep
        exact ih hstep hrest

theorem parsed_receive_all (hmin : min_offer ≤ limit) (hmax : limit ≤ max_payload)
    (chunks : List (List Byte)) : Parsed limit chunks.flatten (receive_all limit chunks) := by
  induction chunks using List.reverseRecOn with
  | nil => exact parsed_initial hmin hmax
  | append_singleton chunks chunk ih =>
    rw [receive_all, Runs.run_concat, List.flatten_append, List.flatten_singleton]
    exact ih.consume (Nat.lt_succ_self _)

/-- No frame starts at what the decoder holds. -/
theorem Parsed.stuck (h : Parsed limit stream r) (f : Frame) (hf : f.Fits limit) :
    ¬ wire f <+: r.decoder.bytes ++ r.left := by
  rintro ⟨rest, hrest⟩
  have hmax : limit ≤ max_payload := h.limit_eq ▸ h.wf.limit_le
  have hlen : (wire f).length = header_size + f.payload.length := by
    rw [wire, List.length_append, header_length]
  by_cases hs : r.decoder.state = .incomplete
  · rw [h.collecting hs, List.append_nil] at hrest
    have hlong := congrArg List.length hrest
    rw [List.length_append, hlen] at hlong
    rcases h.wf.incomplete hs with hshort | ⟨-, hshort⟩
    · omega
    · -- the size field is the one of the frame, so the frame would be complete
      have hsize := (header_ok hf hmax (f.payload ++ rest) r.decoder.state).2.1
      rw [← List.append_assoc] at hsize
      change (⟨wire f ++ rest, limit, r.decoder.state⟩ : Decoder).size = _ at hsize
      rw [hrest] at hsize
      change r.decoder.size = _ at hsize
      omega
  · obtain ⟨hlong, hverdict⟩ := h.refused hs
    have hheader : header f.type f.request f.payload.length = r.decoder.bytes := by
      rw [wire, List.append_assoc] at hrest
      exact (List.append_inj hrest (by rw [header_length, hlong])).1
    have hv := Decoder.verdict_header f.type hf.request_lt hf.fields hf.payload_le hmax []
    rw [List.append_nil, hheader, hverdict] at hv
    split at hv
    · exact h.not_ready hv
    · exact hs hv

theorem Parsed.longest_parse (h : Parsed limit stream r) :
    LongestParse wire (Frame.Fits limit) stream r.frames (r.decoder.bytes ++ r.left) :=
  ⟨h.split, h.fits, h.stuck⟩

/-- The decoder is a function of the rest of the stream. -/
theorem Parsed.decoder_eq (h : Parsed limit stream r) :
    r.decoder = settled limit (r.decoder.bytes ++ r.left) := by
  have hd : ∀ state, r.decoder.state = state → r.decoder = ⟨r.decoder.bytes, limit, state⟩ := by
    rintro state rfl
    rw [← h.limit_eq]
  have hmax : limit ≤ max_payload := h.limit_eq ▸ h.wf.limit_le
  unfold settled
  by_cases hs : r.decoder.state = .incomplete
  · rw [h.collecting hs, List.append_nil, if_pos]
    · exact hd _ hs
    · rcases h.wf.incomplete hs with hshort | ⟨hok, hshort⟩
      · exact .inl hshort
      · right
        have hv := hok.verdict_header h.wf.limit_le
        rw [h.limit_eq, if_neg (by have := hok.long; omega)] at hv
        exact hv
  · obtain ⟨hlong, hverdict⟩ := h.refused hs
    rw [List.take_left' hlong, hverdict, if_neg]
    · exact hd _ rfl
    · rw [List.length_append, hlong]
      rintro (hlt | heq)
      · omega
      · exact hs heq

/-- The receiver is a function of the stream. -/
theorem Parsed.unique {r' : Receiver} (h : Parsed limit stream r) (h' : Parsed limit stream r') :
    r = r' := by
  have hmax : limit ≤ max_payload := h.limit_eq ▸ h.wf.limit_le
  obtain ⟨hframes, hrest⟩ := h.longest_parse.unique (wire_prefix_free hmax) h'.longest_parse
  have hdecoder : r.decoder = r'.decoder := by
    rw [h.decoder_eq, h'.decoder_eq, hrest]
  rw [hdecoder, List.append_cancel_left_eq] at hrest
  obtain ⟨decoder, frames, left⟩ := r
  simp only at hframes hdecoder hrest
  rw [hframes, hdecoder, hrest]

theorem wire_ne_nil (f : Frame) : wire f ≠ [] := by
  intro h
  have hlen := congrArg List.length h
  rw [wire, List.length_append, header_length, List.length_nil] at hlen
  simp [header_size] at hlen

/-- What `encode` returns is the frame's bytes. -/
theorem flatten_encoded {fs : List Frame} {outs : List (List Byte)}
    (h : List.Forall₂ (fun f out => ∃ capacity, encode capacity f.type f.request f.payload = some out)
      fs outs) : outs.flatten = fs.flatMap wire := by
  induction h with
  | nil => rfl
  | cons hout _ ih =>
    obtain ⟨capacity, henc⟩ := hout
    unfold encode at henc
    split at henc
    · cases henc
    · rw [List.flatten_cons, List.flatMap_cons, ih, ← Option.some.inj henc]
      rfl

/-- Frames that could be encoded fit the limit. -/
theorem fits_encoded {fs : List Frame} {outs : List (List Byte)}
    (h : List.Forall₂ (fun f out => ∃ capacity, encode capacity f.type f.request f.payload = some out)
      fs outs) (hfits : ∀ f ∈ fs, f.request < 2 ^ 32 ∧ f.payload.length ≤ limit) :
    ∀ f ∈ fs, f.Fits limit := by
  induction h with
  | nil =>
    intro f hf
    cases hf
  | cons hout _ ih =>
    intro f hf
    rcases List.mem_cons.mp hf with rfl | hf'
    · obtain ⟨capacity, henc⟩ := hout
      unfold encode at henc
      split at henc
      · cases henc
      · next hn =>
        simp only [Bool.or_eq_true, not_or, Bool.not_eq_true', Bool.not_eq_false] at hn
        exact ⟨(hfits f hf).1, hn.2, (hfits f hf).2⟩
    · exact ih (fun g hg => hfits g (List.mem_cons_of_mem _ hg)) f hf'

/-- The loop over one input moves bytes from the input to the buffer. -/
theorem feed_all_split {d' : Decoder} {left : List Byte} {fuel : ℕ} (hwf : d.Wf)
    (h : d.feed_all input fuel = (d', left)) : d'.Wf ∧ d.bytes ++ input = d'.bytes ++ left := by
  induction fuel generalizing d input with
  | zero =>
    cases h
    exact ⟨hwf, rfl⟩
  | succ fuel ih =>
    rw [Decoder.feed_all] at h
    split at h
    · cases h
      exact ⟨hwf, rfl⟩
    · next hfed =>
      obtain ⟨hwf', hsplit⟩ := ih (hwf.feed input) h
      refine ⟨hwf', ?_⟩
      rw [← hsplit, Decoder.feed, if_neg hfed, List.append_assoc, List.take_append_drop]

/-- What it means to decode a stream exactly. -/
structure ExactDecoding (limit : ℕ) : Prop where
  /-- Whatever the chunks, the frames are the longest parse of the stream, -/
  parse : ∀ chunks, LongestParse wire (Frame.Fits limit) chunks.flatten
    (receive_all limit chunks).frames
    ((receive_all limit chunks).decoder.bytes ++ (receive_all limit chunks).left)
  longest : ∀ chunks fs, (∀ f ∈ fs, f.Fits limit) → fs.flatMap wire <+: chunks.flatten →
    fs <+: (receive_all limit chunks).frames
  /-- and frames and state do not depend on the chunks. -/
  chunking : ∀ chunks chunks', chunks.flatten = chunks'.flatten →
    receive_all limit chunks = receive_all limit chunks'
  /-- Decoding inverts encoding, -/
  decode_encode : ∀ fs outs,
    List.Forall₂ (fun f out => ∃ capacity, encode capacity f.type f.request f.payload = some out)
      fs outs →
    (∀ f ∈ fs, f.request < 2 ^ 32 ∧ f.payload.length ≤ limit) →
    ∀ chunks, chunks.flatten = outs.flatten →
      receive_all limit chunks = ⟨{ limit := limit }, fs, []⟩
  /-- and encoding a READY frame gives the bytes that were read for it. -/
  encode_decode : ∀ input fuel d left,
    ({ limit := limit } : Decoder).feed_all input fuel = (d, left) → d.state = .ready →
    ∃ out, encode (header_size + max_payload) d.type d.request d.payload = some out ∧
      input = out ++ left
  /-- A header that is not accepted is all that is consumed of its frame. -/
  refusal : ∀ fs head rest chunks, (∀ f ∈ fs, f.Fits limit) → head.length = header_size →
    ¬ (⟨head, limit, .incomplete⟩ : Decoder).HeaderOk →
    chunks.flatten = fs.flatMap wire ++ (head ++ rest) →
    ∃ state, state ≠ .incomplete ∧ state ≠ .ready ∧
      receive_all limit chunks = ⟨⟨head, limit, state⟩, fs, rest⟩ ∧
      ∀ input, (⟨head, limit, state⟩ : Decoder).fed input = 0 ∧
        (⟨head, limit, state⟩ : Decoder).feed input = ⟨head, limit, state⟩

/-- Frames up to the point where the decoder stops, and nothing after it. -/
theorem Parsed.refusal (h : Parsed limit stream r) {fs : List Frame} {head rest : List Byte}
    (hfs : ∀ f ∈ fs, f.Fits limit) (hlen : head.length = header_size)
    (hbad : ¬ (⟨head, limit, .incomplete⟩ : Decoder).HeaderOk)
    (hstream : stream = fs.flatMap wire ++ (head ++ rest)) :
    ∃ state, state ≠ .incomplete ∧ state ≠ .ready ∧ r = ⟨⟨head, limit, state⟩, fs, rest⟩ := by
  have hmax : limit ≤ max_payload := h.limit_eq ▸ h.wf.limit_le
  have hparse : LongestParse wire (Frame.Fits limit) stream fs (head ++ rest) := by
    refine ⟨hstream, hfs, ?_⟩
    rintro f hf ⟨more, hmore⟩
    rw [wire, List.append_assoc] at hmore
    have hhead := (List.append_inj hmore (by rw [header_length, hlen])).1
    have hok := (header_ok hf hmax [] .incomplete).1
    rw [List.append_nil, hhead] at hok
    exact hbad hok
  obtain ⟨hframes, hrest⟩ := h.longest_parse.unique (wire_prefix_free hmax) hparse
  have hverdict : (⟨head, limit, .incomplete⟩ : Decoder).verdict ≠ .incomplete ∧
      (⟨head, limit, .incomplete⟩ : Decoder).verdict ≠ .ready := by
    constructor
    · intro hv
      exact hbad (Decoder.verdict_ok hlen.ge rfl (.inl hv)).1
    · intro hv
      exact hbad (Decoder.verdict_ok hlen.ge rfl (.inr hv)).1
  have hdecoder := h.decoder_eq
  rw [hrest, settled, List.take_left' hlen, if_neg] at hdecoder
  · refine ⟨_, hverdict.1, hverdict.2, ?_⟩
    rw [hdecoder, List.append_cancel_left_eq] at hrest
    obtain ⟨decoder, frames, left⟩ := r
    simp only at hframes hdecoder hrest
    rw [hframes, hdecoder, hrest]
  · rw [List.length_append, hlen]
    rintro (hlt | heq)
    · omega
    · exact hverdict.1 heq

/-- **Decoding is exact**, for every limit that can be negotiated. -/
theorem exact_decoding (hmin : min_offer ≤ limit) (hmax : limit ≤ max_payload) : ExactDecoding limit := by
  have hparsed := parsed_receive_all hmin hmax
  have hfree := wire_prefix_free hmax
  constructor
  · intro chunks
    exact (hparsed chunks).longest_parse
  · intro chunks fs hfs hpre
    exact (hparsed chunks).longest_parse.longest hfree hfs hpre
  · intro chunks chunks' heq
    have h' := hparsed chunks'
    rw [← heq] at h'
    exact (hparsed chunks).unique h'
  · intro fs outs hout hfits chunks heq
    have hfs : ∀ f ∈ fs, f.Fits limit := fits_encoded hout hfits
    -- the parse that ends with the stream is the longest
    have hparse : LongestParse wire (Frame.Fits limit) chunks.flatten fs [] := by
      refine ⟨?_, hfs, ?_⟩
      · rw [heq, flatten_encoded hout, List.append_nil]
      · intro f hf hpre
        exact wire_ne_nil f (List.prefix_nil.mp hpre)
    have h := hparsed chunks
    obtain ⟨hframes, hrest⟩ := h.longest_parse.unique hfree hparse
    have hdecoder := h.decoder_eq
    rw [hrest] at hdecoder
    obtain ⟨-, hleft⟩ := List.append_eq_nil_iff.mp hrest
    generalize receive_all limit chunks = r at hframes hdecoder hleft
    obtain ⟨decoder, frames, left⟩ := r
    simp only at hframes hdecoder hleft
    rw [hframes, hdecoder, hleft]
    rfl
  · intro input fuel d left hd hready
    obtain ⟨hwf, hsplit⟩ := feed_all_split (parsed_initial hmin hmax).wf hd
    refine ⟨wire d.frame, encode_wire (hwf.frame_fits hready) hwf.limit_le, ?_⟩
    rw [hwf.wire_frame hready]
    exact hsplit
  · intro fs head rest chunks hfs hlen hbad hstream
    obtain ⟨state, hn, hr, heq⟩ := (hparsed chunks).refusal hfs hlen hbad hstream
    refine ⟨state, hn, hr, heq, ?_⟩
    intro input
    exact ⟨Decoder.fed_eq_zero hn input, Decoder.feed_eq_self hn input⟩

theorem exact_decoding_smallest : min_offer ≤ 512 ∧ ExactDecoding 512 :=
  ⟨by decide, exact_decoding (by decide) (by decide)⟩

end Receiver

end Firmingo.Protocol
