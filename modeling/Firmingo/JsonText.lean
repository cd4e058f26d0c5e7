/-
The strings of `src/core/json.cpp` against the grammar.

The scanners walk a text by position; the grammar is written over byte strings. The
two meet in `Spans`: what stands in the text at a position. For each scanner there
are two halves. What it accepts is the source of a tree, and where the source of a
tree stands it reads exactly that tree. The second half is stated for any end of the
text behind the source, because a string is read twice: by `parse` up to the end of
the text, and by the readers up to the end of its token.
-/
import Firmingo.Json
import Firmingo.JsonGrammar

set_option autoImplicit false

open Octets JsonGrammar

namespace Firmingo.Json

variable {b : List Byte} {p q size : ℕ}

/-! ## Bytes at a position -/

/-- The bytes `l` stand in `b` at position `p`. -/
def Spans (b : List Byte) (p : ℕ) (l : List Byte) : Prop := l <+: b.drop p

@[simp] theorem spans_nil : Spans b p [] := List.nil_prefix

variable {l : List Byte}

@[simp] theorem spans_cons {c : Byte} :
    Spans b p (c :: l) ↔ (p < b.length ∧ byte_at b p = c) ∧ Spans b (p + 1) l := by
  unfold Spans byte_at
  by_cases hp : p < b.length
  · rw [List.drop_eq_getElem_cons hp, List.cons_prefix_cons, List.getD_eq_getElem _ _ hp]
    simp only [hp, true_and, eq_comm]
  · have hnil : b.drop p = [] := List.drop_eq_nil_of_le (by omega)
    simp [hnil, hp]

@[simp] theorem spans_append {m : List Byte} :
    Spans b p (l ++ m) ↔ Spans b p l ∧ Spans b (p + l.length) m := by
  induction l generalizing p with
  | nil => simp
  | cons c l ih =>
    rw [List.cons_append, spans_cons, ih, spans_cons, List.length_cons, ← and_assoc,
      show p + 1 + l.length = p + (l.length + 1) from by omega]

theorem Spans.le_length (h : Spans b p l) (hp : p ≤ b.length) : p + l.length ≤ b.length := by
  have hle := List.IsPrefix.length_le h
  rw [List.length_drop] at hle
  omega

/-- The bytes between the two ends of what stands at a position. -/
theorem Spans.slice_eq (h : Spans b p l) : (b.take (p + l.length)).drop p = l := by
  rw [List.drop_take, Nat.add_sub_cancel_left]
  exact (List.prefix_iff_eq_take.mp h).symm

/-! ## Code units -/

theorem hex_byte (d : HexDigit) : hex d.byte = some d.value.val := by
  obtain ⟨v, u⟩ := d
  revert v u
  decide

variable {n : ℕ}

/-- Every byte that `hex` accepts is a hex digit of the grammar. -/
theorem exists_hex_digit {c : Byte} (h : hex c = some n) :
    ∃ d : HexDigit, d.byte = c ∧ d.value.val = n := by
  have hc := c.toNat_lt
  unfold hex at h
  simp only [ge_iff_le, UInt8.le_iff_toNat_le, UInt8.toNat_ofNat] at h
  split_ifs at h with h1 h2 h3 <;> cases h
  · refine ⟨⟨⟨c.toNat - 0x30, by omega⟩, false⟩, ?_, rfl⟩
    rw [HexDigit.byte, if_pos (by dsimp only; omega)]
    apply UInt8.toNat.inj
    rw [UInt8.toNat_ofNat']
    dsimp only
    omega
  · refine ⟨⟨⟨c.toNat - 0x61 + 10, by omega⟩, false⟩, ?_, rfl⟩
    rw [HexDigit.byte, if_neg (by dsimp only; omega), if_neg Bool.false_ne_true]
    apply UInt8.toNat.inj
    rw [UInt8.toNat_ofNat']
    dsimp only
    omega
  · refine ⟨⟨⟨c.toNat - 0x41 + 10, by omega⟩, true⟩, ?_, rfl⟩
    rw [HexDigit.byte, if_neg (by dsimp only; omega), if_pos rfl]
    apply UInt8.toNat.inj
    rw [UInt8.toNat_ofNat']
    dsimp only
    omega

theorem hex4_complete (u : CodeUnit) (h : Spans b p u.source) (hsize : p + 4 ≤ size) :
    hex4 b size p = some (u.value, p + 4) := by
  simp only [CodeUnit.source, spans_cons, spans_nil, and_true] at h
  obtain ⟨⟨-, h0⟩, ⟨-, h1⟩, ⟨-, h2⟩, -, h3⟩ := h
  rw [hex4, if_neg (by omega), h0, h1, h2, h3]
  simp only [hex_byte]
  rfl

/-- Four hex digits that are accepted are a code unit. -/
theorem hex4_sound {cp : ℕ} (hsize : size ≤ b.length) (h : hex4 b size p = some (cp, q)) :
    ∃ u : CodeUnit, u.value = cp ∧ Spans b p u.source ∧ q = p + 4 ∧ q ≤ size := by
  unfold hex4 at h
  split_ifs at h with hp
  simp only [Option.bind_eq_bind, Option.bind_eq_some_iff, Option.pure_def, Option.some.injEq,
    Prod.mk.injEq] at h
  obtain ⟨n3, h3, n2, h2, n1, h1, n0, h0, hcp, hq⟩ := h
  obtain ⟨d3, hb3, rfl⟩ := exists_hex_digit h3
  obtain ⟨d2, hb2, rfl⟩ := exists_hex_digit h2
  obtain ⟨d1, hb1, rfl⟩ := exists_hex_digit h1
  obtain ⟨d0, hb0, rfl⟩ := exists_hex_digit h0
  refine ⟨⟨d3, d2, d1, d0⟩, hcp, ?_, by omega, by omega⟩
  simp only [CodeUnit.source, spans_cons, spans_nil, and_true]
  exact ⟨⟨by omega, hb3.symm⟩, ⟨by omega, hb2.symm⟩, ⟨by omega, hb1.symm⟩, by omega, hb0.symm⟩

/-! ## Characters -/

theorem toNat_ofNat_scalar (h : n < 0xd800 ∨ 0xdfff < n) (hn : n < 0x110000) :
    (Char.ofNat n).toNat = n := by
  rw [Char.toNat_ofNat, if_pos]
  rcases h with h | h
  · exact Or.inl h
  · exact Or.inr ⟨h, hn⟩

theorem toNat_unit {u : CodeUnit} (h : u.value < 0xd800 ∨ 0xdfff < u.value) :
    (Char.ofNat u.value).toNat = u.value := by
  have hlt := u.value_lt
  exact toNat_ofNat_scalar h (by omega)

theorem toNat_pair {high low : CodeUnit} (hh : 0xd800 ≤ high.value ∧ high.value ≤ 0xdbff)
    (hl : 0xdc00 ≤ low.value ∧ low.value ≤ 0xdfff) :
    (Char.ofNat (0x10000 + (high.value - 0xd800) * 0x400 + (low.value - 0xdc00))).toNat
      = 0x10000 + (high.value - 0xd800) * 0x400 + (low.value - 0xdc00) :=
  toNat_ofNat_scalar (by omega) (by omega)

theorem toNat_lt_scalar (c : Char) : (c.toNat < 0xd800 ∨ 0xdfff < c.toNat) ∧ c.toNat < 0x110000 := by
  rcases c.valid with h | h
  · exact ⟨Or.inl h, lt_trans h (by decide)⟩
  · exact ⟨Or.inr h.1, h.2⟩

/-- The encoder of the source writes the UTF-8 encoding of a character. -/
theorem utf8_toNat (c : Char) : utf8 c.toNat = String.utf8EncodeChar c := by
  have hc : c.val.toNat < 0x110000 := (toNat_lt_scalar c).2
  unfold utf8 String.utf8EncodeChar Char.toNat
  dsimp only
  split_ifs with h1 h2 h3 h4 h5 h6 <;> first | omega | skip
  · rfl
  · simp only [List.cons.injEq, and_true]
    exact ⟨congrArg UInt8.ofNat (by omega), congrArg UInt8.ofNat (by omega)⟩
  · simp only [List.cons.injEq, and_true]
    exact ⟨congrArg UInt8.ofNat (by omega), congrArg UInt8.ofNat (by omega),
      congrArg UInt8.ofNat (by omega)⟩
  · simp only [List.cons.injEq, and_true]
    exact ⟨congrArg UInt8.ofNat (by omega), congrArg UInt8.ofNat (by omega),
      congrArg UInt8.ofNat (by omega), congrArg UInt8.ofNat (by omega)⟩

/-- A number from its groups of six bits. -/
theorem groups_of_six (n : ℕ) :
    ((n / 262144 * 64 + n / 4096 % 64) * 64 + n / 64 % 64) * 64 + n % 64 = n := by
  omega

/-- The UTF-8 form of a scalar value is accepted, and gives the value back. -/
theorem multibyte_complete (hlow : 0x80 ≤ n) (hscalar : n < 0xd800 ∨ 0xdfff < n)
    (hn : n < 0x110000) (h : Spans b p (utf8 n)) (hsize : p + (utf8 n).length ≤ size) :
    0x80 ≤ (byte_at b p).toNat ∧
      multibyte b size (p + 1) (byte_at b p) = some (n, p + (utf8 n).length) := by
  unfold utf8 at h hsize ⊢
  rw [if_neg (by omega)] at h hsize ⊢
  -- the three lengths of an encoding; the first byte alone tells which it is
  split_ifs at h hsize ⊢ with h2 h3
  · simp only [spans_cons, spans_nil, and_true] at h
    obtain ⟨⟨-, hb0⟩, -, hb1⟩ := h
    have hn0 := congrArg UInt8.toNat hb0
    have hn1 := congrArg UInt8.toNat hb1
    rw [UInt8.toNat_ofNat'] at hn0 hn1
    refine ⟨by omega, ?_⟩
    simp only [multibyte, ge_iff_le, UInt8.le_iff_toNat_le, UInt8.toNat_ofNat]
    rw [if_pos (by omega)]
    simp only [Option.bind_eq_bind, Option.bind_some, List.length_cons, List.length_nil] at hsize ⊢
    rw [if_neg (by omega)]
    simp only [continuation]
    rw [if_neg (by omega), Option.bind_some, if_neg (by omega)]
    simp only [Option.pure_def, Option.some.injEq, Prod.mk.injEq, and_true]
    omega
  · simp only [spans_cons, spans_nil, and_true] at h
    obtain ⟨⟨-, hb0⟩, ⟨-, hb1⟩, -, hb2⟩ := h
    have hn0 := congrArg UInt8.toNat hb0
    have hn1 := congrArg UInt8.toNat hb1
    have hn2 := congrArg UInt8.toNat hb2
    rw [UInt8.toNat_ofNat'] at hn0 hn1 hn2
    refine ⟨by omega, ?_⟩
    simp only [multibyte, ge_iff_le, UInt8.le_iff_toNat_le, UInt8.toNat_ofNat]
    rw [if_neg (by omega), if_pos (by omega)]
    simp only [Option.bind_eq_bind, Option.bind_some, List.length_cons, List.length_nil] at hsize ⊢
    rw [if_neg (by omega)]
    simp only [continuation]
    rw [if_neg (by omega), if_neg (by omega), Option.bind_some, if_neg (by omega)]
    simp only [Option.pure_def, Option.some.injEq, Prod.mk.injEq, and_true]
    omega
  · simp only [spans_cons, spans_nil, and_true] at h
    obtain ⟨⟨-, hb0⟩, ⟨-, hb1⟩, ⟨-, hb2⟩, -, hb3⟩ := h
    have hn0 := congrArg UInt8.toNat hb0
    have hn1 := congrArg UInt8.toNat hb1
    have hn2 := congrArg UInt8.toNat hb2
    have hn3 := congrArg UInt8.toNat hb3
    rw [UInt8.toNat_ofNat'] at hn0 hn1 hn2 hn3
    refine ⟨by omega, ?_⟩
    simp only [multibyte, ge_iff_le, UInt8.le_iff_toNat_le, UInt8.toNat_ofNat]
    rw [if_neg (by omega), if_neg (by omega), if_pos (by omega)]
    simp only [Option.bind_eq_bind, Option.bind_some, List.length_cons, List.length_nil] at hsize ⊢
    rw [if_neg (by omega)]
    simp only [continuation]
    have hlead : (byte_at b p).toNat % 8 = n / 262144 := by omega
    have hfirst : (byte_at b (p + 1)).toNat % 64 = n / 4096 % 64 := by omega
    have hsecond : (byte_at b (p + 1 + 1)).toNat % 64 = n / 64 % 64 := by omega
    have hthird : (byte_at b (p + 1 + 1 + 1)).toNat % 64 = n % 64 := by omega
    rw [if_neg (by omega), if_neg (by omega), if_neg (by omega), Option.bind_some, hlead, hfirst,
      hsecond, hthird, groups_of_six, if_neg (by omega)]
    simp only [Option.pure_def]

/-- A continuation byte carries six bits. -/
theorem continuation_succ {lead remaining : ℕ} (h : continuation b p lead (remaining + 1) = some n) :
    (byte_at b p).toNat / 64 = 2 ∧
      continuation b (p + 1) (lead * 64 + (byte_at b p).toNat % 64) remaining = some n := by
  unfold continuation at h
  split_ifs at h with hb
  exact ⟨not_not.mp hb, h⟩

/-- A sequence that is accepted is the UTF-8 form of its value: no overlong form and no surrogate. -/
theorem multibyte_sound {c : Byte} (hsize : size ≤ b.length) (h : multibyte b size p c = some (n, q)) :
    ((n < 0xd800 ∨ 0xdfff < n) ∧ n < 0x110000) ∧ 0x80 ≤ n ∧
      ∃ tail, utf8 n = c :: tail ∧ Spans b p tail ∧ q = p + tail.length := by
  have hbyte : ∀ {x y : Byte}, x.toNat = y.toNat → x = y := fun h => UInt8.toNat.inj h
  simp only [multibyte, ge_iff_le, UInt8.le_iff_toNat_le, UInt8.toNat_ofNat,
    Option.bind_eq_bind] at h
  -- sequences of two, three and four bytes; the range check rules out the overlong ones
  split_ifs at h with h1 h2 h3
  · simp only [Option.bind_some] at h
    split_ifs at h with hroom
    obtain ⟨m, hm, h⟩ := Option.bind_eq_some_iff.mp h
    obtain ⟨hb1, hm⟩ := continuation_succ hm
    simp only [continuation, Option.some.injEq] at hm
    split_ifs at h with hrange
    simp only [Option.pure_def, Option.some.injEq, Prod.mk.injEq] at h
    obtain ⟨rfl, rfl⟩ := h
    refine ⟨by omega, by omega, [byte_at b p], ?_, ?_, rfl⟩
    · rw [utf8, if_neg (by omega), if_pos (by omega)]
      simp only [List.cons.injEq, and_true]
      refine ⟨hbyte ?_, hbyte ?_⟩ <;> (rw [UInt8.toNat_ofNat']; omega)
    · simp only [spans_cons, spans_nil, and_true]
      omega
  · simp only [Option.bind_some] at h
    split_ifs at h with hroom
    obtain ⟨m, hm, h⟩ := Option.bind_eq_some_iff.mp h
    obtain ⟨hb1, hm⟩ := continuation_succ hm
    obtain ⟨hb2, hm⟩ := continuation_succ hm
    simp only [continuation, Option.some.injEq] at hm
    split_ifs at h with hrange
    simp only [Option.pure_def, Option.some.injEq, Prod.mk.injEq] at h
    obtain ⟨rfl, rfl⟩ := h
    refine ⟨by omega, by omega, [byte_at b p, byte_at b (p + 1)], ?_, ?_, rfl⟩
    · rw [utf8, if_neg (by omega), if_neg (by omega), if_pos (by omega)]
      simp only [List.cons.injEq, and_true]
      refine ⟨hbyte ?_, hbyte ?_, hbyte ?_⟩ <;> (rw [UInt8.toNat_ofNat']; omega)
    · simp only [spans_cons, spans_nil, and_true]
      omega
  · simp only [Option.bind_some] at h
    split_ifs at h with hroom
    obtain ⟨m, hm, h⟩ := Option.bind_eq_some_iff.mp h
    obtain ⟨hb1, hm⟩ := continuation_succ hm
    obtain ⟨hb2, hm⟩ := continuation_succ hm
    obtain ⟨hb3, hm⟩ := continuation_succ hm
    simp only [continuation, Option.some.injEq] at hm
    split_ifs at h with hrange
    simp only [Option.pure_def, Option.some.injEq, Prod.mk.injEq] at h
    obtain ⟨rfl, rfl⟩ := h
    refine ⟨by omega, by omega, [byte_at b p, byte_at b (p + 1), byte_at b (p + 1 + 1)], ?_, ?_,
      rfl⟩
    · rw [utf8, if_neg (by omega), if_neg (by omega), if_neg (by omega)]
      simp only [List.cons.injEq, and_true]
      refine ⟨hbyte ?_, hbyte ?_, hbyte ?_, hbyte ?_⟩ <;> (rw [UInt8.toNat_ofNat']; omega)
    · simp only [spans_cons, spans_nil, and_true]
      omega
  · cases h

theorem unicode_escape_complete_unit {u : CodeUnit} (hu : u.value < 0xd800 ∨ 0xdfff < u.value)
    (h : Spans b p u.source) (hsize : p + 4 ≤ size) :
    unicode_escape b size p = some (u.value, p + 4) := by
  simp only [unicode_escape, hex4_complete u h hsize, Option.bind_eq_bind, Option.bind_some]
  rw [if_neg (by omega), if_neg (by omega)]
  rfl

/-- A high and a low surrogate give the code point of the pair. -/
theorem unicode_escape_complete_pair {high low : CodeUnit}
    (hh : 0xd800 ≤ high.value ∧ high.value ≤ 0xdbff) (hl : 0xdc00 ≤ low.value ∧ low.value ≤ 0xdfff)
    (h : Spans b p (high.source ++ 0x5c :: 0x75 :: low.source)) (hsize : p + 10 ≤ size) :
    unicode_escape b size p
      = some (0x10000 + (high.value - 0xd800) * 0x400 + (low.value - 0xdc00), p + 10) := by
  simp only [spans_append, spans_cons] at h
  obtain ⟨hhigh, ⟨-, hslash⟩, ⟨-, hu⟩, hlow⟩ := h
  change byte_at b (p + 4) = 0x5c at hslash
  change byte_at b (p + 4 + 1) = 0x75 at hu
  change Spans b (p + 4 + 2) low.source at hlow
  simp only [unicode_escape, hex4_complete high hhigh (by omega : p + 4 ≤ size),
    Option.bind_eq_bind, Option.bind_some]
  rw [if_pos hh, if_neg (by simp only [hslash, hu, ne_eq, not_true_eq_false, or_false]; omega),
    hex4_complete low hlow (by omega), Option.bind_some]
  dsimp only
  rw [if_neg (by omega)]
  rfl

/-- What an escape of code units denotes, and how it is written. -/
theorem unicode_escape_sound (hsize : size ≤ b.length) (h : unicode_escape b size p = some (n, q)) :
    ∃ c : Character, c.char.toNat = n ∧
      ∃ tail, c.source = 0x5c :: 0x75 :: tail ∧ Spans b p tail ∧ q = p + tail.length := by
  simp only [unicode_escape, Option.bind_eq_bind] at h
  obtain ⟨⟨m, p1⟩, hhigh, h⟩ := Option.bind_eq_some_iff.mp h
  obtain ⟨high, rfl, hspan, rfl, hle⟩ := hex4_sound hsize hhigh
  dsimp only at h
  split_ifs at h with h1 h2 h3
  · obtain ⟨⟨m, p2⟩, hlow, h⟩ := Option.bind_eq_some_iff.mp h
    obtain ⟨low, rfl, hspan2, rfl, hle2⟩ := hex4_sound hsize hlow
    dsimp only at h
    split_ifs at h with h4
    simp only [Option.pure_def, Option.some.injEq, Prod.mk.injEq] at h
    obtain ⟨rfl, rfl⟩ := h
    have hlow_range : 0xdc00 ≤ low.value ∧ low.value ≤ 0xdfff := by omega
    refine ⟨.pair high low h1 hlow_range, toNat_pair h1 hlow_range, _, rfl, ?_, rfl⟩
    simp only [not_or, not_not] at h2
    simp only [spans_append, spans_cons]
    exact ⟨hspan, ⟨by change p + 4 < b.length; omega, h2.2.1⟩,
      ⟨by change p + 4 + 1 < b.length; omega, h2.2.2⟩, hspan2⟩
  · simp only [Option.pure_def, Option.some.injEq, Prod.mk.injEq] at h
    obtain ⟨rfl, rfl⟩ := h
    have hscalar : high.value < 0xd800 ∨ 0xdfff < high.value := by omega
    exact ⟨.unit high hscalar, toNat_unit hscalar, _, rfl, hspan, rfl⟩

theorem escape_complete (e : Escape) (hb : byte_at b p = e.letter) (hp : p < size) :
    escape b size p = some (e.char.toNat, p + 1) := by
  rw [escape, if_neg (by omega), hb]
  cases e <;> rfl

/-- An escape is one letter, or code units after a `u`. -/
theorem escape_sound (hsize : size ≤ b.length) (hp : p ≤ size) (h : escape b size p = some (n, q)) :
    ∃ c : Character, c.char.toNat = n ∧
      ∃ tail, c.source = 0x5c :: tail ∧ Spans b p tail ∧ q = p + tail.length := by
  unfold escape at h
  split_ifs at h with hend
  have hlt : p < b.length := by omega
  have letter : ∀ e : Escape, byte_at b p = e.letter → (e.char.toNat, p + 1) = (n, q) →
      ∃ c : Character, c.char.toNat = n ∧
        ∃ tail, c.source = 0x5c :: tail ∧ Spans b p tail ∧ q = p + tail.length := by
    intro e hb he
    obtain ⟨rfl, rfl⟩ := Prod.mk.inj he
    exact ⟨.escape e, rfl, [e.letter], rfl, by simp [hlt, hb], rfl⟩
  dsimp only at h
  split_ifs at h with h1 h2 h3 h4 h5 h6 h7
  · rw [Option.some.injEq] at h
    rcases h1 with h1 | h1 | h1
    · rw [h1] at h
      exact letter .quote h1 h
    · rw [h1] at h
      exact letter .backslash h1 h
    · rw [h1] at h
      exact letter .slash h1 h
  · exact letter .backspace h2 (Option.some.inj h)
  · exact letter .form_feed h3 (Option.some.inj h)
  · exact letter .line_feed h4 (Option.some.inj h)
  · exact letter .carriage_return h5 (Option.some.inj h)
  · exact letter .tab h6 (Option.some.inj h)
  · obtain ⟨c, hc, tail, htail, hspan, rfl⟩ := unicode_escape_sound hsize h
    refine ⟨c, hc, 0x75 :: tail, htail, ?_, ?_⟩
    · exact spans_cons.mpr ⟨⟨hlt, h7⟩, hspan⟩
    · rw [List.length_cons]
      omega

/-- Where a character stands, its first byte neither ends the string nor is a control
character, and the scanner reads that character. -/
theorem code_point_complete (c : Character) (h : Spans b p c.source) (hsize : p + c.source.length ≤ size) :
    (p < size ∧ byte_at b p ≠ 0x22 ∧ ¬ byte_at b p < 0x20) ∧
      code_point b size p = some (c.char.toNat, p + c.source.length) := by
  cases c with
  | plain c hprint hquote hslash =>
    change Spans b p (String.utf8EncodeChar c) at h
    change p + (String.utf8EncodeChar c).length ≤ size at hsize
    change _ ∧ _ = some (c.toNat, p + (String.utf8EncodeChar c).length)
    rw [← utf8_toNat] at h hsize ⊢
    obtain ⟨hscalar, hlt⟩ := toNat_lt_scalar c
    simp only [UInt8.lt_iff_toNat_lt, ne_eq, ← UInt8.toNat_inj, code_point, ge_iff_le,
      UInt8.le_iff_toNat_le, UInt8.toNat_ofNat]
    by_cases hascii : c.toNat < 0x80
    · rw [utf8, if_pos hascii] at h hsize ⊢
      obtain ⟨⟨-, hb⟩, -⟩ := spans_cons.mp h
      have hn := congrArg UInt8.toNat hb
      rw [UInt8.toNat_ofNat'] at hn
      rw [List.length_singleton] at hsize ⊢
      rw [if_neg (by omega), if_neg (by omega), show (byte_at b p).toNat = c.toNat by omega]
      exact ⟨by omega, rfl⟩
    · obtain ⟨hb, hread⟩ := multibyte_complete (by omega) hscalar hlt h hsize
      have hpos : 0 < (utf8 c.toNat).length := by
        rw [utf8_toNat, String.length_utf8EncodeChar]
        exact Char.utf8Size_pos c
      rw [if_neg (by omega), if_pos (by omega)]
      exact ⟨by omega, hread⟩
  | escape e =>
    change Spans b p [0x5c, e.letter] at h
    change p + 2 ≤ size at hsize
    simp only [spans_cons, spans_nil, and_true] at h
    obtain ⟨⟨-, hb⟩, -, hletter⟩ := h
    rw [code_point, hb]
    exact ⟨⟨by omega, by decide, by decide⟩, escape_complete e hletter (by omega)⟩
  | unit u hu =>
    change Spans b p (0x5c :: 0x75 :: u.source) at h
    change p + 6 ≤ size at hsize
    simp only [spans_cons] at h
    obtain ⟨⟨-, hb⟩, ⟨-, hletter⟩, hspan⟩ := h
    refine ⟨⟨by omega, by rw [hb]; decide, by rw [hb]; decide⟩, ?_⟩
    simp only [code_point, hb, if_true]
    rw [escape, if_neg (by omega), hletter]
    change unicode_escape b size (p + 1 + 1) = some ((Char.ofNat u.value).toNat, p + 6)
    rw [unicode_escape_complete_unit hu hspan (by omega), toNat_unit hu]
  | pair high low hh hl =>
    change Spans b p (0x5c :: 0x75 :: (high.source ++ 0x5c :: 0x75 :: low.source)) at h
    change p + 12 ≤ size at hsize
    rw [spans_cons, spans_cons] at h
    obtain ⟨⟨-, hb⟩, ⟨-, hletter⟩, hspan⟩ := h
    refine ⟨⟨by omega, by rw [hb]; decide, by rw [hb]; decide⟩, ?_⟩
    simp only [code_point, hb, if_true]
    rw [escape, if_neg (by omega), hletter]
    change unicode_escape b size (p + 1 + 1) = some ((Char.ofNat _).toNat, p + 12)
    rw [unicode_escape_complete_pair hh hl hspan (by omega), toNat_pair hh hl]

/-- A code point that is accepted is a character of the grammar. -/
theorem code_point_sound (hp : p < b.length) (hquote : byte_at b p ≠ 0x22)
    (hprint : ¬ byte_at b p < 0x20) (h : code_point b b.length p = some (n, q)) :
    ∃ c : Character, c.char.toNat = n ∧ Spans b p c.source ∧ q = p + c.source.length := by
  simp only [code_point] at h
  split_ifs at h with hslash hhigh
  · obtain ⟨c, hc, tail, htail, hspan, rfl⟩ := escape_sound (le_refl _) (by omega) h
    refine ⟨c, hc, ?_, ?_⟩
    · rw [htail]
      exact spans_cons.mpr ⟨⟨hp, hslash⟩, hspan⟩
    · rw [htail, List.length_cons]
      omega
  · obtain ⟨⟨hscalar, hlt⟩, hlow, tail, htail, hspan, rfl⟩ := multibyte_sound (le_refl _) h
    have hnat := toNat_ofNat_scalar hscalar hlt
    have hsource : String.utf8EncodeChar (Char.ofNat n) = byte_at b p :: tail := by
      rw [← utf8_toNat, hnat, htail]
    refine ⟨.plain (Char.ofNat n) (by omega) (by omega) (by omega), hnat, ?_, ?_⟩
    · change Spans b p (String.utf8EncodeChar (Char.ofNat n))
      rw [hsource]
      exact spans_cons.mpr ⟨⟨hp, rfl⟩, hspan⟩
    · change _ = p + (String.utf8EncodeChar (Char.ofNat n)).length
      rw [hsource, List.length_cons]
      omega
  · simp only [Option.some.injEq, Prod.mk.injEq] at h
    obtain ⟨rfl, rfl⟩ := h
    simp only [UInt8.lt_iff_toNat_lt, ne_eq, ← UInt8.toNat_inj, ge_iff_le,
      UInt8.le_iff_toNat_le, UInt8.toNat_ofNat] at hquote hprint hslash hhigh
    have hnat := @toNat_ofNat_scalar (byte_at b p).toNat (by omega) (by omega)
    have hsource : String.utf8EncodeChar (Char.ofNat (byte_at b p).toNat) = [byte_at b p] := by
      rw [← utf8_toNat, hnat, utf8, if_pos (by omega), UInt8.ofNat_toNat]
    refine ⟨.plain (Char.ofNat (byte_at b p).toNat) (by omega) (by omega) (by omega), hnat, ?_, ?_⟩
    · change Spans b p (String.utf8EncodeChar _)
      rw [hsource]
      exact spans_cons.mpr ⟨⟨hp, rfl⟩, spans_nil⟩
    · change p + 1 = p + (String.utf8EncodeChar _).length
      rw [hsource, List.length_singleton]

/-! ## Strings -/

/-- The strings the validator lets through: 64 bytes at most, and no NUL. -/
structure Admitted (s : Text) : Prop where
  short : s.decoded.length ≤ max_string
  no_nul : ∀ c ∈ s.chars, c.toNat ≠ 0

instance (s : Text) : Decidable (Admitted s) :=
  decidable_of_iff (s.decoded.length ≤ max_string ∧ ∀ c ∈ s.chars, c.toNat ≠ 0)
    ⟨fun h => ⟨h.1, h.2⟩, fun h => ⟨h.short, h.no_nul⟩⟩

theorem overflows_mono {capacity : Option ℕ} {m : ℕ} (h : m ≤ n)
    (ho : overflows capacity m = true) : overflows capacity n = true := by
  cases capacity with
  | none => cases ho
  | some k =>
    simp only [overflows, ge_iff_le, decide_eq_true_eq] at ho ⊢
    omega

/-- Where the characters of a string and a quote stand, the loop of `text` decodes
them if they fit, and fails otherwise. -/
theorem text_loop_eq (s : Text) (capacity : Option ℕ) {fuel : ℕ} {out : List Byte}
    (h : Spans b p (s.flatMap Character.source ++ [0x22]))
    (hsize : p + (s.flatMap Character.source).length + 1 ≤ size)
    (hfuel : (s.flatMap Character.source).length < fuel) (hout : out.length ≤ max_string) :
    text_loop b size capacity fuel p out =
      if (out.length + s.decoded.length ≤ max_string ∧ ∀ c ∈ s.chars, c.toNat ≠ 0) ∧
          overflows capacity (out.length + s.decoded.length) = false then
        some (out ++ s.decoded, p + (s.flatMap Character.source).length + 1)
      else none := by
  induction s generalizing p out fuel with
  | nil =>
    obtain ⟨fuel, rfl⟩ : ∃ n, fuel = n + 1 := ⟨fuel - 1, by omega⟩
    obtain ⟨⟨-, hb⟩, -⟩ := spans_cons.mp h
    rw [text_loop, if_neg (by simp only [List.flatMap_nil, List.length_nil] at hsize; omega),
      if_pos hb]
    simp only [Text.decoded, Text.chars, List.flatMap_nil, List.length_nil, Nat.add_zero,
      List.map_nil, List.not_mem_nil, false_implies, implies_true, and_true, hout, true_and,
      List.append_nil]
    cases overflows capacity out.length <;> rfl
  | cons c s ih =>
    rw [List.flatMap_cons] at h hsize hfuel ⊢
    rw [List.append_assoc, spans_append] at h
    rw [List.length_append] at hsize hfuel ⊢
    obtain ⟨hc, hs⟩ := h
    obtain ⟨⟨hp, hquote, hprint⟩, hread⟩ := code_point_complete c hc (by omega : _ ≤ size)
    obtain ⟨fuel, rfl⟩ : ∃ n, fuel = n + 1 := ⟨fuel - 1, by omega⟩
    have hpos := c.source_length_pos
    rw [text_loop, if_neg (by omega), if_neg hquote, if_neg hprint, hread]
    dsimp only
    rw [utf8_toNat, Text.decoded_cons, Text.chars_cons, List.length_append]
    by_cases hnul : c.char.toNat = 0
    · rw [if_pos hnul, if_neg]
      rintro ⟨⟨-, hall⟩, -⟩
      exact hall c.char List.mem_cons_self hnul
    · rw [if_neg hnul]
      by_cases hfits : out.length + (String.utf8EncodeChar c.char).length ≤ max_string ∧
          overflows capacity (out.length + (String.utf8EncodeChar c.char).length) = false
      · rw [if_neg (by simp only [hfits.2, Bool.or_false, decide_eq_true_eq]; omega),
          ih hs (by omega) (by omega) (by rw [List.length_append]; exact hfits.1)]
        rw [List.length_append, List.append_assoc]
        simp only [List.mem_cons, forall_eq_or_imp, ne_eq, hnul, not_false_eq_true, true_and,
          Nat.add_assoc]
      · rw [if_pos, if_neg]
        · rintro ⟨⟨hlen, -⟩, hover⟩
          refine hfits ⟨by omega, ?_⟩
          by_contra hno
          rw [Bool.not_eq_false] at hno
          rw [overflows_mono (by omega) hno] at hover
          cases hover
        · rw [Bool.or_eq_true, decide_eq_true_eq]
          by_contra hno
          rw [not_or, Bool.not_eq_true] at hno
          exact hfits ⟨by omega, hno.2⟩

theorem overflows_none (n : ℕ) : overflows none n = false := rfl

/-- Where a string stands, `text` decodes it if it is admitted and fits, and fails
otherwise. -/
theorem text_eq (s : Text) (capacity : Option ℕ) (h : Spans b p s.source)
    (hsize : p + s.source.length ≤ size) :
    text b size p capacity =
      if Admitted s ∧ overflows capacity s.decoded.length = false then
        some (s.decoded, p + s.source.length)
      else none := by
  rw [Text.source, spans_cons] at h
  have hlen : s.source.length = (s.flatMap Character.source).length + 2 := by
    simp [Text.source]
  obtain ⟨⟨hp, hb⟩, hs⟩ := h
  rw [text, if_neg (by rw [hb]; simp only [ne_eq, not_true_eq_false, or_false]; omega),
    text_loop_eq s capacity hs (by omega) (by omega) (Nat.zero_le _), hlen]
  simp only [List.length_nil, Nat.zero_add, List.nil_append]
  refine if_congr (and_congr_left' ⟨fun h => ⟨h.1, h.2⟩, fun h => ⟨h.short, h.no_nul⟩⟩) ?_ rfl
  rw [show p + 1 + (s.flatMap Character.source).length + 1
    = p + ((s.flatMap Character.source).length + 2) by omega]

/-- The loop of `text` has read characters and a quote. -/
theorem text_loop_sound {fuel : ℕ} {out res : List Byte} (hout : out.length ≤ max_string)
    (h : text_loop b b.length none fuel p out = some (res, q)) :
    ∃ s : Text, res = out ++ s.decoded ∧ res.length ≤ max_string ∧ (∀ c ∈ s.chars, c.toNat ≠ 0) ∧
      Spans b p (s.flatMap Character.source ++ [0x22]) ∧
      q = p + (s.flatMap Character.source).length + 1 := by
  induction fuel generalizing p out with
  | zero => cases h
  | succ fuel ih =>
    rw [text_loop] at h
    split_ifs at h with hp hquote hover hctrl
    · simp only [Option.some.injEq, Prod.mk.injEq] at h
      obtain ⟨rfl, rfl⟩ := h
      refine ⟨[], (List.append_nil _).symm, hout, by simp [Text.chars], ?_, rfl⟩
      exact spans_cons.mpr ⟨⟨by omega, hquote⟩, spans_nil⟩
    · split at h
      · cases h
      · rename_i n p1 hread
        obtain ⟨c, rfl, hc, rfl⟩ := code_point_sound (by omega) hquote hctrl hread
        split_ifs at h with hnul hfits
        rw [utf8_toNat] at h hfits
        rw [overflows_none, Bool.or_false, decide_eq_true_eq] at hfits
        obtain ⟨s, hres, hlen, hno, hspan, rfl⟩ := ih (by rw [List.length_append]; omega) h
        refine ⟨c :: s, ?_, hlen, ?_, ?_, ?_⟩
        · rw [hres, Text.decoded_cons, List.append_assoc]
        · rw [Text.chars_cons]
          exact List.forall_mem_cons.mpr ⟨hnul, hno⟩
        · rw [List.flatMap_cons, List.append_assoc]
          exact spans_append.mpr ⟨hc, hspan⟩
        · rw [List.flatMap_cons, List.length_append]
          omega

/-- What `text` accepts is an admitted string. -/
theorem text_sound {out : List Byte} (h : text b b.length p none = some (out, q)) :
    ∃ s : Text, Admitted s ∧ out = s.decoded ∧ Spans b p s.source ∧ q = p + s.source.length := by
  rw [text] at h
  split_ifs at h with hp
  simp only [not_or, not_le, not_not] at hp
  obtain ⟨s, hout, hlen, hno, hspan, rfl⟩ := text_loop_sound (Nat.zero_le _) h
  rw [List.nil_append] at hout
  refine ⟨s, ⟨by rw [← hout]; exact hlen, hno⟩, hout, spans_cons.mpr ⟨hp, hspan⟩, ?_⟩
  simp only [Text.source, List.length_cons, List.length_append, List.length_nil]
  omega

end Firmingo.Json
