/-
The blanks, numbers and words of `src/core/json.cpp` against the grammar.

As for strings, what a scanner accepts is the source of a tree, and where the source
of a tree stands it reads that tree. A run of blanks or digits has no end mark of its
own, so the second half asks what follows: something outside the class that is
skipped, and behind a number nothing that would carry it on.
-/
import Firmingo.JsonText

set_option autoImplicit false

open Octets JsonGrammar

namespace Firmingo.Json

variable {b : List Byte} {p q size : ℕ}

/-! ## Blanks and digits

`whitespace` and the digit loops of `value` are one loop: it passes the bytes of a
class and stops at the first byte outside it. -/

/-- The loop that passes the bytes of a class. -/
def skip (P : Byte → Bool) (b : List Byte) : ℕ → ℕ → ℕ
  | 0, p => p
  | fuel + 1, p => if p < b.length ∧ P (byte_at b p) then skip P b fuel (p + 1) else p

theorem whitespace_loop_eq (b : List Byte) (fuel p : ℕ) :
    whitespace_loop b fuel p = skip is_space b fuel p := by
  induction fuel generalizing p with
  | zero => rfl
  | succ fuel ih => rw [whitespace_loop, skip, ih]

theorem digits_loop_eq (b : List Byte) (fuel p : ℕ) : digits_loop b fuel p = skip digit b fuel p := by
  induction fuel generalizing p with
  | zero => rfl
  | succ fuel ih => rw [digits_loop, skip, ih]

/-- The text ends at `p`, or goes on with a byte outside the class. -/
def Outside (P : Byte → Bool) (b : List Byte) (p : ℕ) : Prop :=
  p < b.length → P (byte_at b p) = false

variable {P : Byte → Bool}

/-- The loop stops where the bytes of the class end. -/
theorem skip_complete {l : List Byte} {fuel : ℕ} (h : Spans b p l) (hl : ∀ c ∈ l, P c = true)
    (hend : Outside P b (p + l.length)) (hfuel : l.length ≤ fuel) : skip P b fuel p = p + l.length := by
  induction l generalizing p fuel with
  | nil =>
    cases fuel with
    | zero => rfl
    | succ fuel =>
      have hout : Outside P b p := hend
      rw [skip, if_neg]
      · rfl
      · rintro ⟨hp, hs⟩
        rw [hout hp] at hs
        cases hs
  | cons c l ih =>
    obtain ⟨fuel, rfl⟩ : ∃ n, fuel = n + 1 :=
      ⟨fuel - 1, by rw [List.length_cons] at hfuel; omega⟩
    rw [List.length_cons] at hend hfuel ⊢
    obtain ⟨⟨hp, hb⟩, hw⟩ := spans_cons.mp h
    obtain ⟨hc, hl⟩ := List.forall_mem_cons.mp hl
    rw [skip, if_pos ⟨hp, by rw [hb]; exact hc⟩,
      ih hw hl (by rwa [Nat.add_assoc, Nat.add_comm 1]) (by omega)]
    omega

/-- What the loop passes over is a run of the class, as long as it can be. -/
theorem skip_sound {fuel : ℕ} (hfuel : b.length - p ≤ fuel) :
    ∃ l, (∀ c ∈ l, P c = true) ∧ Spans b p l ∧ skip P b fuel p = p + l.length ∧
      Outside P b (p + l.length) := by
  induction fuel generalizing p with
  | zero =>
    refine ⟨[], by simp, spans_nil, rfl, fun hp => ?_⟩
    rw [List.length_nil] at hp
    omega
  | succ fuel ih =>
    rw [skip]
    split_ifs with hs
    · obtain ⟨l, hl, hspan, heq, hend⟩ := @ih (p + 1) (by omega)
      refine ⟨byte_at b p :: l, List.forall_mem_cons.mpr ⟨hs.2, hl⟩,
        spans_cons.mpr ⟨⟨hs.1, rfl⟩, hspan⟩, ?_, ?_⟩
      · rw [heq, List.length_cons]
        omega
      · rwa [List.length_cons, Nat.add_comm l.length, ← Nat.add_assoc]
    · refine ⟨[], by simp, spans_nil, rfl, fun hp => ?_⟩
      by_contra hno
      rw [Bool.not_eq_false] at hno
      exact hs ⟨hp, hno⟩

theorem is_space_byte (s : Space) : is_space s.byte = true := by
  cases s <;> rfl

theorem is_space_blank (w : List Space) : ∀ c ∈ blank w, is_space c = true := by
  intro c hc
  obtain ⟨s, -, rfl⟩ := List.mem_map.mp hc
  exact is_space_byte s

variable {c : Byte}

theorem exists_space (h : is_space c = true) : ∃ s : Space, s.byte = c := by
  simp only [is_space, Bool.or_eq_true, decide_eq_true_eq] at h
  rcases h with ((h | h) | h) | h
  · exact ⟨.space, h.symm⟩
  · exact ⟨.tab, h.symm⟩
  · exact ⟨.carriage_return, h.symm⟩
  · exact ⟨.line_feed, h.symm⟩

/-- A string of bytes of a class is spelled by what stands for them one by one. -/
theorem exists_map_eq {α : Type} {f : α → Byte} (hf : ∀ c, P c = true → ∃ a, f a = c) {l : List Byte}
    (hl : ∀ c ∈ l, P c = true) : ∃ as : List α, as.map f = l := by
  induction l with
  | nil => exact ⟨[], rfl⟩
  | cons c l ih =>
    obtain ⟨hc, hrest⟩ := List.forall_mem_cons.mp hl
    obtain ⟨a, rfl⟩ := hf c hc
    obtain ⟨as, rfl⟩ := ih hrest
    exact ⟨a :: as, rfl⟩

/-- `whitespace` skips the blanks in front of something else. -/
theorem whitespace_complete (w : List Space) (h : Spans b p (blank w))
    (hend : Outside is_space b (p + w.length)) (hp : p ≤ b.length) : whitespace b p = p + w.length := by
  have hle := h.le_length hp
  rw [← blank_length] at hend ⊢
  rw [whitespace, whitespace_loop_eq]
  exact skip_complete h (is_space_blank w) hend (by omega)

/-- What `whitespace` skips is blank. -/
theorem whitespace_sound (b : List Byte) (p : ℕ) :
    ∃ w : List Space, Spans b p (blank w) ∧ whitespace b p = p + w.length ∧
      Outside is_space b (p + w.length) := by
  obtain ⟨l, hl, hspan, heq, hend⟩ := @skip_sound b p is_space _ le_rfl
  obtain ⟨w, rfl⟩ := exists_map_eq (fun _ => exists_space) hl
  rw [List.length_map] at heq hend
  rw [whitespace, whitespace_loop_eq]
  exact ⟨w, hspan, heq, hend⟩

theorem digit_digit_byte (d : Digit) : digit (digit_byte d) = true := by
  revert d
  decide

theorem digit_digit_bytes (ds : List Digit) : ∀ c ∈ digit_bytes ds, digit c = true := by
  intro c hc
  obtain ⟨d, -, rfl⟩ := List.mem_map.mp hc
  exact digit_digit_byte d

theorem exists_digit (h : digit c = true) : ∃ d : Digit, digit_byte d = c := by
  simp only [digit, ge_iff_le, Bool.and_eq_true, decide_eq_true_eq, UInt8.le_iff_toNat_le,
    UInt8.toNat_ofNat] at h
  refine ⟨⟨c.toNat - 0x30, by omega⟩, UInt8.toNat.inj ?_⟩
  rw [digit_byte_toNat]
  dsimp only
  omega

/-- `digits` passes the digits in front of something else. -/
theorem digits_complete (ds : List Digit) (h : Spans b p (digit_bytes ds))
    (hend : Outside digit b (p + ds.length)) (hp : p ≤ b.length) : digits b p = p + ds.length := by
  have hle := h.le_length hp
  rw [← digit_bytes_length] at hend ⊢
  rw [digits, digits_loop_eq]
  exact skip_complete h (digit_digit_bytes ds) hend (by omega)

theorem digits_sound (b : List Byte) (p : ℕ) :
    ∃ ds : List Digit, Spans b p (digit_bytes ds) ∧ digits b p = p + ds.length ∧
      Outside digit b (p + ds.length) := by
  obtain ⟨l, hl, hspan, heq, hend⟩ := @skip_sound b p digit _ le_rfl
  obtain ⟨ds, rfl⟩ := exists_map_eq (fun _ => exists_digit) hl
  rw [List.length_map] at heq hend
  rw [digits, digits_loop_eq]
  exact ⟨ds, hspan, heq, hend⟩

/-! ## Numbers -/

/-- The bytes that would carry a number on. -/
def in_number (c : Byte) : Bool := digit c || c = 0x2e || c = 0x65 || c = 0x45

theorem outside_digit_of_in_number (h : Outside in_number b p) : Outside digit b p := by
  intro hp
  have hout := h hp
  simp only [in_number, Bool.or_eq_false_iff] at hout
  exact hout.1.1.1

theorem outside_of_byte (hb : byte_at b p = c) (hc : P c = false) : Outside P b p := by
  intro _
  rw [hb]
  exact hc

/-- The digits that follow a first one. -/
theorem digits_cons_complete (d : Digit) (ds : List Digit)
    (h : Spans b p (digit_byte d :: digit_bytes ds))
    (hend : Outside digit b (p + (ds.length + 1))) : digits b p = p + (ds.length + 1) := by
  have hp : p ≤ b.length := (spans_cons.mp h).1.1.le
  exact digits_complete (d :: ds) h hend hp

theorem digits_cons_sound (h : digits b p ≠ p) :
    ∃ (d : Digit) (ds : List Digit), Spans b p (digit_byte d :: digit_bytes ds) ∧
      digits b p = p + (ds.length + 1) ∧ Outside digit b (p + (ds.length + 1)) := by
  obtain ⟨ds, hspan, heq, hend⟩ := digits_sound b p
  cases ds with
  | nil => exact absurd heq h
  | cons d ds => exact ⟨d, ds, hspan, heq, hend⟩

/-- A fraction is read to its end. -/
theorem fraction_complete (f : Option Fraction) (h : Spans b p (fraction_source f))
    (hdot : f = none → Outside (fun c => c = 0x2e) b p)
    (hend : Outside digit b (p + (fraction_source f).length)) :
    fraction b p = some (p + (fraction_source f).length) := by
  cases f with
  | none =>
    rw [fraction, if_neg]
    · rfl
    · rintro ⟨hp, hb⟩
      have hout := hdot rfl hp
      rw [decide_eq_false_iff_not] at hout
      exact hout hb
  | some f =>
    obtain ⟨d, ds⟩ := f
    change Spans b p (0x2e :: digit_byte d :: digit_bytes ds) at h
    have hlen : (fraction_source (some ⟨d, ds⟩)).length = ds.length + 2 := by
      simp [fraction_source, Fraction.source]
    rw [hlen] at hend ⊢
    obtain ⟨⟨hp, hb⟩, hds⟩ := spans_cons.mp h
    have hdigits := digits_cons_complete d ds hds
      (by rwa [Nat.add_assoc, Nat.add_comm 1, Nat.add_assoc])
    rw [fraction, if_pos ⟨hp, hb⟩, hdigits, if_neg (by omega)]
    congr 1
    omega

theorem fraction_sound (h : fraction b p = some q) :
    ∃ f : Option Fraction, Spans b p (fraction_source f) ∧ q = p + (fraction_source f).length := by
  rw [fraction] at h
  split_ifs at h with hdot hnone
  · obtain ⟨d, ds, hspan, heq, -⟩ := digits_cons_sound hnone
    refine ⟨some ⟨d, ds⟩, spans_cons.mpr ⟨hdot, hspan⟩, ?_⟩
    rw [Option.some.injEq, heq] at h
    simp only [fraction_source, Option.map_some, Option.getD_some, Fraction.source,
      List.length_cons, digit_bytes_length]
    omega
  · exact ⟨none, spans_nil, (Option.some.inj h).symm⟩

theorem exponent_letter (upper : Bool) :
    (if upper then 0x45 else 0x65 : Byte) = 0x65 ∨ (if upper then 0x45 else 0x65 : Byte) = 0x45 := by
  cases upper
  · exact Or.inl rfl
  · exact Or.inr rfl

theorem sign_byte_iff : (c = 0x2b ∨ c = 0x2d) ↔ ∃ s : Sign, s.byte = c := by
  constructor
  · rintro (rfl | rfl)
    · exact ⟨.plus, rfl⟩
    · exact ⟨.minus, rfl⟩
  · rintro ⟨s, rfl⟩
    cases s
    · exact Or.inl rfl
    · exact Or.inr rfl

theorem digit_byte_ne_sign (d : Digit) : ¬ (digit_byte d = 0x2b ∨ digit_byte d = 0x2d) := by
  revert d
  decide

/-- The digits of an exponent begin behind its letter, or behind its sign. -/
theorem exponent_digits {first : ℕ}
    (hletter : p < b.length ∧ (byte_at b p = 0x65 ∨ byte_at b p = 0x45))
    (hfirst : (if p + 1 < b.length ∧ (byte_at b (p + 1) = 0x2b ∨ byte_at b (p + 1) = 0x2d) then p + 2
      else p + 1) = first) :
    exponent b p = if digits b first = first then none else some (digits b first) := by
  subst hfirst
  rw [exponent, if_pos hletter]

/-- An exponent is read to its end, with either letter and any sign. -/
theorem exponent_complete (e : Option Exponent) (h : Spans b p (exponent_source e))
    (hend : Outside in_number b (p + (exponent_source e).length)) :
    exponent b p = some (p + (exponent_source e).length) := by
  cases e with
  | none =>
    have hout : Outside in_number b p := hend
    rw [exponent, if_neg]
    · rfl
    · rintro ⟨hp, hb⟩
      have hno := hout hp
      simp only [in_number, Bool.or_eq_false_iff, decide_eq_false_iff_not] at hno
      rcases hb with hb | hb
      · exact hno.1.2 hb
      · exact hno.2 hb
  | some e =>
    obtain ⟨upper, sign, d, ds⟩ := e
    have hlen : (exponent_source (some ⟨upper, sign, d, ds⟩)).length
        = sign.toList.length + ds.length + 2 := by
      simp only [exponent_source, Option.map_some, Option.getD_some, Exponent.source,
        List.length_cons, List.length_append, digit_bytes_length, Option.toList_map,
        List.length_map]
      omega
    rw [hlen] at hend ⊢
    have hdigit := outside_digit_of_in_number hend
    obtain ⟨⟨hp, hb⟩, hrest⟩ := spans_cons.mp h
    have hletter : p < b.length ∧ (byte_at b p = 0x65 ∨ byte_at b p = 0x45) := by
      rw [hb]
      exact ⟨hp, exponent_letter upper⟩
    cases sign with
    | none =>
      change Spans b (p + 1) (digit_byte d :: digit_bytes ds) at hrest
      change Outside digit b (p + (0 + ds.length + 2)) at hdigit
      have hfirst := (spans_cons.mp hrest).1.2
      have hdigits := digits_cons_complete d ds hrest
        (by rwa [show p + 1 + (ds.length + 1) = p + (0 + ds.length + 2) by omega])
      rw [exponent_digits hletter
        (if_neg (by rw [hfirst]; exact fun h => digit_byte_ne_sign d h.2)),
        hdigits, if_neg (by omega)]
      simp only [Option.toList_none, List.length_nil]
      congr 1
      omega
    | some sign =>
      change Spans b (p + 1) (sign.byte :: digit_byte d :: digit_bytes ds) at hrest
      change Outside digit b (p + (1 + ds.length + 2)) at hdigit
      obtain ⟨⟨hp1, hsign⟩, hds⟩ := spans_cons.mp hrest
      have hdigits := digits_cons_complete d ds hds
        (by rwa [show p + 1 + 1 + (ds.length + 1) = p + (1 + ds.length + 2) by omega])
      rw [exponent_digits hletter (if_pos ⟨hp1, sign_byte_iff.mpr ⟨sign, hsign.symm⟩⟩),
        hdigits, if_neg (by omega)]
      simp only [Option.toList_some, List.length_singleton]
      congr 1
      omega

/-- What the exponent path accepts is an exponent, or nothing at all. -/
theorem exponent_sound (h : exponent b p = some q) :
    ∃ e : Option Exponent, Spans b p (exponent_source e) ∧ q = p + (exponent_source e).length := by
  by_cases hletter : p < b.length ∧ (byte_at b p = 0x65 ∨ byte_at b p = 0x45)
  · obtain ⟨upper, hupper⟩ : ∃ upper : Bool, byte_at b p = if upper then 0x45 else 0x65 := by
      rcases hletter.2 with hl | hl
      · exact ⟨false, hl⟩
      · exact ⟨true, hl⟩
    by_cases hsign : p + 1 < b.length ∧ (byte_at b (p + 1) = 0x2b ∨ byte_at b (p + 1) = 0x2d)
    · obtain ⟨sign, hs⟩ := sign_byte_iff.mp hsign.2
      rw [exponent_digits hletter (if_pos hsign)] at h
      split_ifs at h with hnone
      obtain ⟨d, ds, hspan, heq, -⟩ := digits_cons_sound hnone
      refine ⟨some ⟨upper, some sign, d, ds⟩, ?_, ?_⟩
      · refine spans_cons.mpr ⟨⟨hletter.1, hupper⟩, ?_⟩
        exact spans_cons.mpr ⟨⟨hsign.1, hs.symm⟩, hspan⟩
      · rw [Option.some.injEq, heq] at h
        simp only [exponent_source, Option.map_some, Option.getD_some, Exponent.source,
          Option.toList_some, List.length_cons, List.length_append, List.length_nil,
          digit_bytes_length]
        omega
    · rw [exponent_digits hletter (if_neg hsign)] at h
      split_ifs at h with hnone
      obtain ⟨d, ds, hspan, heq, -⟩ := digits_cons_sound hnone
      refine ⟨some ⟨upper, none, d, ds⟩, ?_, ?_⟩
      · exact spans_cons.mpr ⟨⟨hletter.1, hupper⟩, hspan⟩
      · rw [Option.some.injEq, heq] at h
        simp only [exponent_source, Option.map_some, Option.getD_some, Exponent.source,
          Option.map_none, Option.toList_none, List.nil_append, List.length_cons,
          digit_bytes_length]
        omega
  · rw [exponent, if_neg hletter] at h
    exact ⟨none, spans_nil, (Option.some.inj h).symm⟩

theorem digit_not_minus (h : digit c = true) : c ≠ 0x2d := by
  rintro rfl
  cases h

theorem digit_byte_ne_zero {d : Digit} (h : d ≠ 0) : digit_byte d ≠ 0x30 := by
  revert d
  decide

/-- The whole part, which a zero ends at once. -/
theorem whole_complete (w : Whole) (h : Spans b p w.source) (hend : Outside digit b (p + w.source.length)) :
    (p < b.length ∧ digit (byte_at b p) = true) ∧
      (if byte_at b p = 0x30 then p + 1 else digits b p) = p + w.source.length := by
  cases w with
  | zero =>
    obtain ⟨⟨hp, hb⟩, -⟩ := spans_cons.mp h
    rw [hb, if_pos rfl]
    exact ⟨⟨hp, rfl⟩, rfl⟩
  | digits d ds hd =>
    obtain ⟨⟨hp, hb⟩, -⟩ := spans_cons.mp h
    have hlen : (Whole.digits d ds hd).source.length = ds.length + 1 := by
      simp [Whole.source]
    rw [hlen] at hend ⊢
    have hne : byte_at b p ≠ 0x30 := by
      rw [hb]
      exact digit_byte_ne_zero hd
    rw [if_neg hne, digits_cons_complete d ds h hend, hb]
    exact ⟨⟨hp, digit_digit_byte d⟩, rfl⟩

/-- The integer part: a zero alone, or digits that do not start with one. -/
theorem whole_sound (hp : p < b.length) (hd : digit (byte_at b p) = true) :
    ∃ w : Whole, Spans b p w.source ∧
      (if byte_at b p = 0x30 then p + 1 else digits b p) = p + w.source.length := by
  split_ifs with hzero
  · exact ⟨.zero, spans_cons.mpr ⟨⟨hp, hzero⟩, spans_nil⟩, rfl⟩
  · have hne : digits b p ≠ p := by
      obtain ⟨ds, -, heq, hout⟩ := digits_sound b p
      intro hsame
      have hnil : ds.length = 0 := by omega
      rw [hnil] at hout
      have hfalse := hout hp
      rw [Nat.add_zero, hd] at hfalse
      cases hfalse
    obtain ⟨d, ds, hspan, heq, -⟩ := digits_cons_sound hne
    have hd0 : d ≠ 0 := by
      rintro rfl
      exact hzero (spans_cons.mp hspan).1.2
    refine ⟨.digits d ds hd0, hspan, ?_⟩
    rw [heq]
    simp [Whole.source]

/-- An exponent does not begin like a digit or a point. -/
theorem exponent_outside (e : Option Exponent) (h : Spans b p (exponent_source e))
    (hend : Outside in_number b (p + (exponent_source e).length)) :
    Outside digit b p ∧ Outside (fun c => c = 0x2e) b p := by
  cases e with
  | none =>
    have hout : Outside in_number b p := hend
    refine ⟨outside_digit_of_in_number hout, fun hp => ?_⟩
    have hno := hout hp
    simp only [in_number, Bool.or_eq_false_iff] at hno
    exact hno.1.1.2
  | some e =>
    have hb := (spans_cons.mp h).1.2
    cases hu : e.upper
    · rw [hu] at hb
      exact ⟨outside_of_byte hb rfl, outside_of_byte hb rfl⟩
    · rw [hu] at hb
      exact ⟨outside_of_byte hb rfl, outside_of_byte hb rfl⟩

theorem fraction_outside (f : Option Fraction) (h : Spans b p (fraction_source f))
    (hend : Outside digit b (p + (fraction_source f).length)) : Outside digit b p := by
  cases f with
  | none => exact hend
  | some f => exact outside_of_byte (spans_cons.mp h).1.2 rfl

/-- A number after its sign. -/
theorem number_eq {start : ℕ} (hstart : (if byte_at b p = 0x2d then p + 1 else p) = start)
    (hp : start < b.length) (hd : digit (byte_at b start) = true) :
    number b p = (fraction b (if byte_at b start = 0x30 then start + 1 else digits b start)).bind
      (exponent b) := by
  subst hstart
  rw [number, if_neg (by rw [hd]; simp only [Bool.not_true, Bool.false_eq_true, or_false]; omega)]
  rfl

/-- Where a number stands, and nothing that would carry it on follows, `number` reads it. -/
theorem number_complete (n : Number) (h : Spans b p n.source)
    (hend : Outside in_number b (p + n.source.length)) : number b p = some (p + n.source.length) := by
  obtain ⟨minus, w, f, e⟩ := n
  rw [Number.source] at h hend ⊢
  simp only [spans_append, List.length_append, ← Nat.add_assoc] at h hend ⊢
  obtain ⟨hminus, hwhole, hfraction, hexponent⟩ := h
  obtain ⟨hdigit, hdot⟩ := exponent_outside e hexponent hend
  obtain ⟨⟨hlt, hd⟩, hread⟩ := whole_complete w hwhole (fraction_outside f hfraction hdigit)
  have hstart : (if byte_at b p = 0x2d then p + 1 else p) = p + (minus_source minus).length := by
    cases minus with
    | false => exact if_neg (digit_not_minus hd)
    | true => exact if_pos (spans_cons.mp hminus).1.2
  rw [number_eq hstart hlt hd, hread, fraction_complete f hfraction ?_ hdigit, Option.bind_some,
    exponent_complete e hexponent hend]
  rintro rfl
  exact hdot

/-- What `number` accepts is a number. -/
theorem number_sound (h : number b p = some q) :
    ∃ n : Number, Spans b p n.source ∧ q = p + n.source.length := by
  obtain ⟨minus, hminus, hstart⟩ : ∃ minus : Bool, Spans b p (minus_source minus) ∧
      (if byte_at b p = 0x2d then p + 1 else p) = p + (minus_source minus).length := by
    by_cases hb : byte_at b p = 0x2d
    · refine ⟨true, spans_cons.mpr ⟨⟨?_, hb⟩, spans_nil⟩, if_pos hb⟩
      by_contra hp
      rw [byte_at, List.getD_eq_default _ _ (by omega)] at hb
      cases hb
    · exact ⟨false, spans_nil, if_neg hb⟩
  have hfirst : p + (minus_source minus).length < b.length ∧
      digit (byte_at b (p + (minus_source minus).length)) = true := by
    rw [number, hstart] at h
    have hdigit : digit (byte_at b (p + (minus_source minus).length)) = true := by
      by_contra hno
      rw [Bool.not_eq_true] at hno
      rw [if_pos (Or.inr (by rw [hno]; rfl))] at h
      cases h
    refine ⟨?_, hdigit⟩
    by_contra hge
    rw [byte_at, List.getD_eq_default _ _ (by omega)] at hdigit
    cases hdigit
  obtain ⟨w, hwhole, hread⟩ := whole_sound hfirst.1 hfirst.2
  rw [number_eq hstart hfirst.1 hfirst.2, hread] at h
  obtain ⟨p1, hf, he⟩ := Option.bind_eq_some_iff.mp h
  obtain ⟨f, hfraction, rfl⟩ := fraction_sound hf
  obtain ⟨e, hexponent, rfl⟩ := exponent_sound he
  refine ⟨⟨minus, w, f, e⟩, ?_, ?_⟩
  · rw [Number.source]
    simp only [spans_append]
    exact ⟨hminus, hwhole, hfraction, hexponent⟩
  · rw [Number.source]
    simp only [List.length_append]
    omega

/-! ## Words -/

theorem ascii_true : ascii "true" = [0x74, 0x72, 0x75, 0x65] := by decide +kernel

theorem ascii_false : ascii "false" = [0x66, 0x61, 0x6c, 0x73, 0x65] := by decide +kernel

theorem ascii_null : ascii "null" = [0x6e, 0x75, 0x6c, 0x6c] := by decide +kernel

/-- `literal` reads the word its first letter announces. -/
theorem literal_eq_some_iff {word : List Byte}
    (hword : (if byte_at b p = 0x74 then ascii "true" else if byte_at b p = 0x66 then ascii "false"
      else ascii "null") = word) :
    literal b p = some q ↔ Spans b p word ∧ q = p + word.length := by
  have hspans : Spans b p word ↔ ¬ (b.length - p < word.length ∨ (b.drop p).take word.length ≠ word) := by
    rw [Spans, List.prefix_iff_eq_take, not_or, not_not, not_lt]
    constructor
    · intro heq
      refine ⟨?_, heq.symm⟩
      have hlen := congrArg List.length heq
      rw [List.length_take, List.length_drop] at hlen
      omega
    · exact fun h => h.2.symm
  rw [literal, hword]
  constructor
  · intro h
    split_ifs at h with hno
    exact ⟨hspans.mpr hno, (Option.some.inj h).symm⟩
  · rintro ⟨h, rfl⟩
    rw [if_neg (hspans.mp h)]

/-! ## Scalars -/

/-- The kind of the token of a container. -/
def container_kind : Container → Kind
  | .array => .array
  | .object => .object

/-- The kind of the token of a value. -/
def kind_of : Value → Kind
  | .null => .null_value
  | .boolean _ => .boolean
  | .number _ => .number
  | .string _ => .string
  | .empty k _ | .full k _ _ => container_kind k

/-- The values that are one token and no string. -/
inductive Scalar : Value → Prop
  | null : Scalar .null
  | boolean (t : Bool) : Scalar (.boolean t)
  | number (n : Number) : Scalar (.number n)

/-- The first byte of a number. -/
theorem number_first (n : Number) : ∃ c l, n.source = c :: l ∧ (c = 0x2d ∨ digit c = true) := by
  obtain ⟨minus, w, f, e⟩ := n
  cases minus with
  | true => exact ⟨0x2d, _, rfl, Or.inl rfl⟩
  | false =>
    cases w with
    | zero => exact ⟨0x30, _, rfl, Or.inr rfl⟩
    | digits d ds hd => exact ⟨digit_byte d, _, rfl, Or.inr (digit_digit_byte d)⟩

/-- The bytes a value that is no string and no container begins with. -/
def scalar_first (c : Byte) : Bool :=
  c = 0x74 || c = 0x66 || c = 0x6e || c = 0x2d || digit c

theorem Scalar.first {v : Value} (hv : Scalar v) : ∃ c l, v.source = c :: l ∧ scalar_first c = true := by
  cases hv with
  | null => exact ⟨0x6e, _, by rw [Value.source, ascii_null], rfl⟩
  | boolean t =>
    cases t
    · exact ⟨0x66, _, by rw [Value.source, if_neg Bool.false_ne_true, ascii_false], rfl⟩
    · exact ⟨0x74, _, by rw [Value.source, if_pos rfl, ascii_true], rfl⟩
  | number n =>
    obtain ⟨c, l, heq, hc⟩ := number_first n
    refine ⟨c, l, by rw [Value.source, heq], ?_⟩
    rcases hc with rfl | hc
    · rfl
    · rw [scalar_first, hc, Bool.or_true]

/-- Where a scalar stands, and nothing that would carry a number on follows, `scalar`
reads it. -/
theorem scalar_complete {v : Value} (hv : Scalar v) (h : Spans b p v.source)
    (hend : Outside in_number b (p + v.source.length)) :
    scalar b p = some (kind_of v, p + v.source.length) := by
  cases hv with
  | null =>
    rw [Value.source] at h ⊢
    have hb : byte_at b p = 0x6e := by
      rw [ascii_null, spans_cons] at h
      exact h.1.2
    have hread := (@literal_eq_some_iff b p _ _ (by rw [hb]; rfl)).mpr ⟨h, rfl⟩
    rw [scalar, hread, hb]
    rfl
  | boolean t =>
    rw [Value.source] at h ⊢
    cases t
    · rw [if_neg Bool.false_ne_true] at h ⊢
      have hb : byte_at b p = 0x66 := by
        rw [ascii_false, spans_cons] at h
        exact h.1.2
      have hread := (@literal_eq_some_iff b p _ _ (by rw [hb]; rfl)).mpr ⟨h, rfl⟩
      rw [scalar, hread, hb]
      rfl
    · rw [if_pos rfl] at h ⊢
      have hb : byte_at b p = 0x74 := by
        rw [ascii_true, spans_cons] at h
        exact h.1.2
      have hread := (@literal_eq_some_iff b p _ _ (by rw [hb]; rfl)).mpr ⟨h, rfl⟩
      rw [scalar, hread, hb]
      rfl
  | number n =>
    rw [Value.source] at h hend ⊢
    obtain ⟨c, l, heq, hc⟩ := number_first n
    have hb : byte_at b p = c := by
      rw [heq, spans_cons] at h
      exact h.1.2
    rw [scalar, number_complete n h hend, hb, if_neg]
    · rfl
    · rcases hc with rfl | hc
      · decide
      · rintro (rfl | rfl | rfl) <;> cases hc

/-- What is accepted as a scalar is one, and has its kind. -/
theorem scalar_sound {kind : Kind} (h : scalar b p = some (kind, q)) :
    ∃ v : Value, Scalar v ∧ kind = kind_of v ∧ Spans b p v.source ∧ q = p + v.source.length := by
  rw [scalar] at h
  by_cases hword : byte_at b p = 0x74 ∨ byte_at b p = 0x66 ∨ byte_at b p = 0x6e
  · rw [if_pos hword] at h
    obtain ⟨p1, hread, heq⟩ := Option.map_eq_some_iff.mp h
    simp only [Prod.mk.injEq] at heq
    obtain ⟨rfl, rfl⟩ := heq
    rcases hword with hb | hb | hb
    · obtain ⟨hspan, hq⟩ :=
        (@literal_eq_some_iff b p _ (ascii "true") (by rw [hb, if_pos rfl])).mp hread
      refine ⟨.boolean true, .boolean true, ?_, hspan, hq⟩
      rw [hb, if_neg (by decide)]
      rfl
    · obtain ⟨hspan, hq⟩ := (@literal_eq_some_iff b p _ (ascii "false")
        (by rw [hb, if_neg (by decide), if_pos rfl])).mp hread
      refine ⟨.boolean false, .boolean false, ?_, hspan, hq⟩
      rw [hb, if_neg (by decide)]
      rfl
    · obtain ⟨hspan, hq⟩ := (@literal_eq_some_iff b p _ (ascii "null")
        (by rw [hb, if_neg (by decide), if_neg (by decide)])).mp hread
      refine ⟨.null, .null, ?_, hspan, hq⟩
      rw [hb, if_pos rfl]
      rfl
  · rw [if_neg hword] at h
    obtain ⟨p1, hread, heq⟩ := Option.map_eq_some_iff.mp h
    simp only [Prod.mk.injEq] at heq
    obtain ⟨rfl, rfl⟩ := heq
    obtain ⟨n, hspan, hq⟩ := number_sound hread
    exact ⟨.number n, .number n, rfl, hspan, hq⟩

end Firmingo.Json
