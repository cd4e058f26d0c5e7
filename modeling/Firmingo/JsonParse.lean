/-
`Document::value` and `Document::parse` against the grammar.

As for the scanners there are two halves, each an induction over the two loops at
once. What the loops accept is a tree within the limits, and the tokens they add are
its listing; a tree within the limits that stands in the text is accepted. Together
they say which texts `parse` accepts and what its table is.
-/
import Firmingo.JsonTree

set_option autoImplicit false

open Octets JsonGrammar

namespace Firmingo.Json

variable {b : List Byte} {k : Container} {fuel parent depth start : ℕ} {st : State}

/-! ## What is accepted is a tree -/

/-- Completing the token of a container that stands behind `before`. -/
theorem close_container_append (before inside : List Token) (t : Token) (position : ℕ) :
    close_container k start parent before.length ⟨position, before ++ (t :: inside)⟩ =
      ⟨position, before ++
        (⟨container_kind k, u16 start, u16 position, u16 parent,
          u16 (before.length + (inside.length + 1)), false⟩ :: inside)⟩ := by
  simp only [close_container, List.length_append, List.length_cons, State.mk.injEq, true_and]
  rw [List.set_append_right _ _ le_rfl, Nat.sub_self, List.set_cons_zero]

/-- `value` at this fuel accepts only values, and lists them. -/
def ValueSound (b : List Byte) (fuel : ℕ) : Prop :=
  ∀ {parent depth : ℕ} {st st' : State}, parent ≤ 0xffff → st.position ≤ b.length →
    st.tokens.length ≤ max_tokens → Rooted st.tokens → value b fuel parent depth st = some st' →
    ∃ (w : List Space) (v : Value), Spans b st.position (blank w) ∧
      Stands b depth (st.position + w.length) st.tokens.length v ∧
      st' = ⟨st.position + w.length + v.source.length,
        st.tokens ++ value_tokens (st.position + w.length) parent st.tokens.length v⟩

/-- `members` at this fuel accepts only items, and lists them. -/
def MembersSound (b : List Byte) (fuel : ℕ) : Prop :=
  ∀ {k : Container} {index depth : ℕ} {st st' : State}, index < st.tokens.length →
    st.position ≤ b.length → Outside is_space b st.position → st.tokens.length ≤ max_tokens →
    Rooted st.tokens → members b fuel index (k = .object) k.closing depth st = some st' →
    ∃ items : Items k,
      StandsItems b (depth + 1) st.position st.tokens.length items (names b st.tokens index) ∧
      st' = ⟨st.position + items.source.length + 1,
        st.tokens ++ items_tokens st.position index st.tokens.length items⟩

variable {p index : ℕ}

theorem text_stands {s : Text} (hspan : Spans b p s.source) (hs : Admitted s)
    (hdepth : depth ≤ max_depth) (hroom : index < max_tokens) :
    Stands b depth p index (.string s) where
  spans := by rwa [Value.source]
  deep := by rwa [Value.depth]
  room := by rwa [Value.count]
  admitted := by
    rw [Value.texts]
    intro t ht
    rwa [List.mem_singleton.mp ht]
  distinct := by rw [Value.Distinct]; trivial

variable {v : Value}

theorem scalar_stands (hv : Scalar v) (hspan : Spans b p v.source)
    (hdepth : depth ≤ max_depth) (hroom : index < max_tokens) : Stands b depth p index v := by
  refine ⟨hspan, ?_, ?_, ?_, ?_⟩
  · cases hv <;> (rw [Value.depth]; exact hdepth)
  · cases hv <;> (rw [Value.count]; exact hroom)
  · cases hv <;> (rw [Value.texts]; exact fun s hs => absurd hs List.not_mem_nil)
  · cases hv <;> (rw [Value.Distinct]; trivial)

theorem scalar_tokens (hv : Scalar v) (start parent index : ℕ) :
    value_tokens start parent index v = [head_token start parent index v] := by
  cases hv <;> rw [value_tokens]

theorem scalar_count (hv : Scalar v) : v.count = 1 := by
  cases hv <;> rw [Value.count]

variable {tokens : List Token}

/-- The table in front of the items of a container, with the token of the container. -/
theorem rooted_open (h : Rooted tokens) (k : Container) (start parent : ℕ) :
    Rooted (tokens ++ [open_token k start parent]) := by
  refine rooted_append h fun t ht hkey => ?_
  rw [List.mem_singleton] at ht
  subst ht
  cases hkey

theorem names_open (h : Rooted tokens) (k : Container) (start parent : ℕ) :
    names b (tokens ++ [open_token k start parent]) tokens.length = [] := by
  refine names_eq_nil fun t ht hkey hsame => ?_
  rcases List.mem_append.mp ht with ht | ht
  · have hlt := h t ht hkey
    omega
  · rw [List.mem_singleton] at ht
    subst ht
    cases hkey

/-- The container case of `value`. -/
theorem container_sound (hb : b.length ≤ 4096) (ih : MembersSound b fuel) {st' : State}
    (hparent : parent ≤ 0xffff) (hroom : st.tokens.length < max_tokens) (hroot : Rooted st.tokens)
    (hdepth : depth < max_depth) (hstart : start < b.length) (hk : byte_at b start = k.opening)
    (h : (if whitespace b (start + 1) < b.length ∧ byte_at b (whitespace b (start + 1)) = k.closing
        then some ⟨whitespace b (start + 1) + 1, st.tokens ++ [open_token k start parent]⟩
      else members b fuel st.tokens.length (k = .object) k.closing depth
        ⟨whitespace b (start + 1), st.tokens ++ [open_token k start parent]⟩).map
        (close_container k start parent st.tokens.length) = some st') :
    ∃ v : Value, Stands b depth start st.tokens.length v ∧
      st' = ⟨start + v.source.length,
        st.tokens ++ value_tokens start parent st.tokens.length v⟩ := by
  obtain ⟨w, hw, hinner, hsolid⟩ := whitespace_sound b (start + 1)
  have hle := hw.le_length hstart
  rw [blank_length] at hle
  rw [hinner] at h
  have hmax : st.tokens.length < 96 := hroom
  obtain ⟨st1, hread, rfl⟩ := Option.map_eq_some_iff.mp h
  split_ifs at hread with hclose
  · cases hread
    have hlen : (Value.empty k w).source.length = w.length + 2 := by
      simp [Value.source]
    refine ⟨.empty k w, ⟨?_, ?_, ?_, ?_, ?_⟩, ?_⟩
    · rw [Value.source]
      simp only [spans_cons, spans_append, spans_nil, and_true, blank_length]
      exact ⟨⟨hstart, hk⟩, hw, hclose⟩
    · rw [Value.depth]
      exact hdepth
    · rw [Value.count]
      exact hroom
    · rw [Value.texts]
      exact fun s hs => absurd hs List.not_mem_nil
    · rw [Value.Distinct]
      trivial
    · rw [close_container_append, value_tokens, head_token, hlen, Value.count, List.length_nil,
        u16_eq (by omega), u16_eq (by omega), u16_eq (by omega), u16_eq (by omega)]
      simp only [kind_of, Nat.zero_add, State.mk.injEq, List.append_cancel_left_eq,
        List.cons.injEq, Token.mk.injEq, true_and, and_true]
      omega
  · obtain ⟨items, hitems, rfl⟩ :=
      @ih k st.tokens.length depth ⟨start + 1 + w.length, st.tokens ++ [open_token k start parent]⟩
        st1 (by simp) hle hsolid (by simp only [List.length_append, List.length_singleton]; omega)
        (rooted_open hroot k start parent) hread
    rw [names_open hroot] at hitems
    have hlen : (Value.full k w items).source.length = w.length + items.source.length + 2 := by
      simp only [Value.source, List.length_cons, List.length_append, blank_length, List.length_nil]
      omega
    have hstop := hitems.spans.le_length hle
    have htokens := hitems.room
    simp only [List.length_append, List.length_singleton] at hstop htokens
    -- at most 96 tokens and 4096 bytes: the token's 16-bit fields do not wrap
    have hcount : st.tokens.length + 1 + items.count ≤ 96 := htokens
    refine ⟨.full k w items, ⟨?_, ?_, ?_, ?_, ?_⟩, ?_⟩
    · rw [Value.source]
      refine spans_cons.mpr ⟨⟨hstart, hk⟩, spans_append.mpr ⟨hw, ?_⟩⟩
      rw [blank_length]
      exact hitems.spans
    · rw [Value.depth, ← Nat.add_assoc]
      exact hitems.deep
    · rw [Value.count, ← Nat.add_assoc]
      exact htokens
    · rw [Value.texts]
      exact hitems.admitted
    · rw [Value.Distinct]
      exact ⟨hitems.nodup, hitems.distinct⟩
    · dsimp only
      rw [List.append_assoc, List.singleton_append, close_container_append, value_tokens,
        head_token, hlen, Value.count, items_tokens_length, u16_eq (by omega), u16_eq (by omega),
        u16_eq (by omega), u16_eq (by omega), List.length_append, List.length_singleton]
      simp only [kind_of, State.mk.injEq, List.append_cancel_left_eq,
        List.cons.injEq, Token.mk.injEq, true_and, and_true]
      omega

/-- One more turn of `value`: a string, a container or a scalar. -/
theorem value_sound_step (hb : b.length ≤ 4096) (ih : MembersSound b fuel) : ValueSound b (fuel + 1) := by
  intro parent depth st st' hparent hp hroom hroot h
  obtain ⟨w, hw, hstart, hsolid⟩ := whitespace_sound b st.position
  have hle := hw.le_length hp
  rw [blank_length] at hle
  refine ⟨w, ?_⟩
  by_cases hno : depth > max_depth ∨ whitespace b st.position = b.length ∨
      st.tokens.length = max_tokens
  · rw [value, if_pos hno] at h
    cases h
  rw [hstart] at hno
  simp only [not_or, not_lt] at hno
  obtain ⟨hdepth, hend, hcount⟩ := hno
  have hlt : st.tokens.length < max_tokens := lt_of_le_of_ne hroom hcount
  by_cases htext : byte_at b (st.position + w.length) = 0x22
  · rw [value_text hstart hdepth hend hcount htext] at h
    obtain ⟨s, hspan, hs, -, -, rfl⟩ :=
      @quoted_sound b ⟨st.position + w.length, st.tokens⟩ st' parent false hb hparent hroom h
    exact ⟨.string s, hw, text_stands hspan hs hdepth hlt, by rw [value_tokens, Value.source]; rfl⟩
  by_cases hopen : ∃ k : Container, byte_at b (st.position + w.length) = k.opening
  · obtain ⟨k, hk⟩ := hopen
    have hshallow : depth < max_depth := by
      rcases Nat.lt_or_eq_of_le hdepth with hlt | rfl
      · exact hlt
      · rw [value_too_deep hstart hk] at h
        cases h
    rw [value_container hstart hshallow hend hcount hk] at h
    obtain ⟨v, hv, rfl⟩ :=
      container_sound hb ih hparent hlt hroot hshallow (lt_of_le_of_ne hle hend) hk h
    exact ⟨v, hw, hv, rfl⟩
  · rw [value_scalar hstart hdepth hend hcount htext (not_exists.mp hopen)] at h
    obtain ⟨⟨kind, q⟩, hread, rfl⟩ := Option.map_eq_some_iff.mp h
    obtain ⟨v, hv, rfl, hspan, rfl⟩ := scalar_sound hread
    have hstop := hspan.le_length hle
    have hmax : st.tokens.length < 96 := hlt
    refine ⟨v, hw, scalar_stands hv hspan hdepth hlt, ?_⟩
    rw [scalar_tokens hv, head_token, scalar_count hv]
    dsimp only
    rw [u16_eq (by omega), u16_eq (by omega), u16_eq (by omega), u16_eq (by omega)]

theorem label_spans_text {s : Text} {before after : List Space}
    (h : Spans b p (Label.name s before after).source) : Spans b p s.source :=
  (spans_append.mp h).1

/-- The names an item adds to its object. -/
theorem names_label {label : Label k} (h : Spans b p label.source) (hs : ∀ s ∈ label.names, Admitted s) :
    names b (label_tokens p parent index label) parent
      = label.names.map fun s => some s.decoded := by
  cases label with
  | element => rfl
  | name s before after =>
    simp only [label_tokens, Label.names, List.map_cons, List.map_nil, names]
    rw [List.filter_cons_of_pos (by simp [text_token]), List.filter_nil, List.map_cons,
      List.map_nil, read_name (label_spans_text h) (hs s List.mem_cons_self)]

theorem rooted_label (h : Rooted tokens) (hparent : parent < tokens.length) (p : ℕ) (label : Label k) :
    Rooted (tokens ++ label_tokens p parent tokens.length label) := by
  refine rooted_append h fun t ht _ => ?_
  obtain ⟨s, -, rfl⟩ := List.mem_map.mp ht
  exact Nat.lt_add_right _ hparent

/-- One item: its name, if it is a member, and its value. -/
theorem item_sound (hb : b.length ≤ 4096) (ih : ValueSound b fuel) {st' : State}
    (hindex : index < st.tokens.length) (hp : st.position ≤ b.length)
    (hsolid : Outside is_space b st.position) (hroom : st.tokens.length ≤ max_tokens)
    (hroot : Rooted st.tokens)
    (h : (labelled b index k st).bind (value b fuel index (depth + 1)) = some st') :
    ∃ (label : Label k) (v : Value), Spans b st.position label.source ∧
      (∀ s ∈ label.names, Admitted s ∧ Fresh b st.tokens index s) ∧
      Stands b (depth + 1) (st.position + label.source.length)
        (st.tokens.length + label.names.length) v ∧
      st' = ⟨st.position + label.source.length + v.source.length,
        st.tokens ++ (label_tokens st.position index st.tokens.length label ++
          value_tokens (st.position + label.source.length) index
            (st.tokens.length + label.names.length) v)⟩ := by
  have hmax : st.tokens.length ≤ 96 := hroom
  cases k with
  | array =>
    obtain ⟨w, v, hw, hv, rfl⟩ := ih (by omega) hp hroom hroot h
    -- the blanks in front of an element have been skipped before
    have hnil : w = [] := by
      cases w with
      | nil => rfl
      | cons s w =>
        obtain ⟨⟨hlt, hbyte⟩, -⟩ := spans_cons.mp hw
        have hout := hsolid hlt
        rw [hbyte, is_space_byte] at hout
        cases hout
    subst hnil
    exact ⟨.element, v, spans_nil, fun s hs => absurd hs List.not_mem_nil, hv, rfl⟩
  | object =>
    obtain ⟨st1, hlabel, hvalue⟩ := Option.bind_eq_some_iff.mp h
    rw [labelled] at hlabel
    cases hquoted : quoted b index true st with
    | none =>
      rw [hquoted] at hlabel
      cases hlabel
    | some st2 =>
      rw [hquoted] at hlabel
      dsimp only at hlabel
      split_ifs at hlabel with hcolon
      cases hlabel
      obtain ⟨s, hspan, hs, hlt, hfresh, rfl⟩ := quoted_sound hb (by omega) hroom hquoted
      dsimp only at hvalue hcolon
      obtain ⟨before, hbefore, heq, -⟩ := whitespace_sound b (st.position + s.source.length)
      have hle := hspan.le_length hp
      have hle2 := hbefore.le_length hle
      rw [blank_length] at hle2
      rw [heq] at hvalue hcolon
      simp only [not_or, not_not] at hcolon
      have htokens : st.tokens ++ [text_token st.position index st.tokens.length true s]
          = st.tokens ++ label_tokens st.position index st.tokens.length
            (Label.name s before []) := rfl
      obtain ⟨after, v, hafter, hv, rfl⟩ := @ih index (depth + 1)
        ⟨st.position + s.source.length + before.length + 1,
          st.tokens ++ [text_token st.position index st.tokens.length true s]⟩ st'
        (by omega) (by dsimp only; omega)
        (by rw [List.length_append, List.length_singleton]; exact hlt)
        (by rw [htokens]; exact rooted_label hroot hindex _ _) hvalue
      have hlen : (Label.name s before after).source.length
          = s.source.length + before.length + 1 + after.length := by
        simp only [Label.source, List.length_append, List.length_cons, blank_length]
        omega
      refine ⟨.name s before after, v, ?_, ?_, ?_, ?_⟩
      · rw [Label.source]
        simp only [spans_append, spans_cons, blank_length]
        exact ⟨hspan, hbefore, ⟨by omega, hcolon.2⟩, hafter⟩
      · intro t ht
        rw [List.mem_singleton.mp ht]
        exact ⟨hs, hfresh rfl⟩
      · rw [hlen, show st.position + (s.source.length + before.length + 1 + after.length)
          = st.position + s.source.length + before.length + 1 + after.length by omega]
        rw [List.length_append] at hv
        exact hv
      · rw [hlen, show st.position + (s.source.length + before.length + 1 + after.length)
          = st.position + s.source.length + before.length + 1 + after.length by omega,
          List.length_append, List.append_assoc]
        rfl

/-- The table behind one item, and the names its object then has. -/
theorem rooted_item (h : Rooted tokens)
    (hindex : index < tokens.length) (p q : ℕ) (label : Label k) (v : Value) :
    Rooted (tokens ++ (label_tokens p index tokens.length label ++
      value_tokens q index (tokens.length + label.names.length) v)) := by
  rw [← List.append_assoc]
  have hvalue := rooted_value (rooted_label h hindex p label) q index v
  rwa [List.length_append, label_tokens_length] at hvalue

theorem names_item {q : ℕ} (hindex : index < tokens.length) {label : Label k}
    (hspan : Spans b p label.source) (hs : ∀ s ∈ label.names, Admitted s) (v : Value) :
    names b (tokens ++ (label_tokens p index tokens.length label ++
        value_tokens q index (tokens.length + label.names.length) v)) index
      = names b tokens index ++ label.names.map fun s => some s.decoded := by
  rw [names_append, names_append, names_label hspan hs, names_value (by omega), List.append_nil]

/-- One more turn of `members`: the last item, or a comma and more. -/
theorem members_sound_step (hb : b.length ≤ 4096) (ihv : ValueSound b fuel)
    (ihm : MembersSound b fuel) : MembersSound b (fuel + 1) := by
  intro k index depth st st' hindex hp hsolid hroom hroot h
  rw [members_eq] at h
  obtain ⟨st1, hitem, hafter⟩ := Option.bind_eq_some_iff.mp h
  obtain ⟨label, v, hlabel, hnames, hv, rfl⟩ :=
    item_sound hb ihv hindex hp hsolid hroom hroot hitem
  have hle := (hv.spans).le_length (hlabel.le_length hp)
  obtain ⟨after, hblank, heq, -⟩ :=
    whitespace_sound b (st.position + label.source.length + v.source.length)
  have hle2 := hblank.le_length hle
  rw [blank_length] at hle2
  rw [after_item] at hafter
  dsimp only at hafter
  rw [heq] at hafter
  split_ifs at hafter with hend hclose hcomma
  · -- the container ends here
    cases hafter
    refine ⟨.last label v after, standsItems_last_iff.mpr ⟨hlabel, ?_, hv, ?_⟩, ?_⟩
    · exact fun s hs => ⟨(hnames s hs).1, fun hmem => ((hnames s hs).2 _ hmem).2 rfl⟩
    · simp only [spans_append, spans_cons, spans_nil, and_true, blank_length]
      exact ⟨hblank, by omega, hclose⟩
    · rw [items_tokens, Items.source, List.length_append, List.length_append, blank_length,
        ← Nat.add_assoc, ← Nat.add_assoc]
  · -- a comma, and the rest
    rw [not_not] at hcomma
    obtain ⟨before, hbefore, heq2, hsolid2⟩ := whitespace_sound b
      (st.position + label.source.length + v.source.length + after.length + 1)
    have hle3 := hbefore.le_length (by omega)
    rw [blank_length] at hle3
    rw [heq2] at hafter
    have hlength : (st.tokens ++ (label_tokens st.position index st.tokens.length label ++
        value_tokens (st.position + label.source.length) index
          (st.tokens.length + label.names.length) v)).length
        = st.tokens.length + label.names.length + v.count := by
      simp only [List.length_append, label_tokens_length, value_tokens_length, Nat.add_assoc]
    obtain ⟨rest, hrest, rfl⟩ := @ihm k index depth
      ⟨st.position + label.source.length + v.source.length + after.length + 1 + before.length,
        st.tokens ++ (label_tokens st.position index st.tokens.length label ++
          value_tokens (st.position + label.source.length) index
            (st.tokens.length + label.names.length) v)⟩ st'
      (by rw [hlength]; omega) hle3 hsolid2 (by rw [hlength]; exact hv.room)
      (rooted_item hroot hindex _ _ label v) hafter
    rw [hlength, names_item hindex hlabel (fun s hs => (hnames s hs).1)] at hrest
    refine ⟨.more label v after before rest,
      standsItems_more_iff.mpr ⟨hlabel, ?_, hv, ?_, hbefore, hrest⟩, ?_⟩
    · exact fun s hs => ⟨(hnames s hs).1, fun hmem => ((hnames s hs).2 _ hmem).2 rfl⟩
    · simp only [spans_append, spans_cons, spans_nil, and_true, blank_length]
      exact ⟨hblank, by omega, hcomma⟩
    · have hlen : (Items.more label v after before rest).source.length
          = label.source.length + v.source.length + after.length + 1 + before.length
            + rest.source.length := by
        simp only [Items.source, List.length_append, List.length_cons, blank_length]
        omega
      rw [items_tokens, hlen, hlength, List.append_assoc, List.append_assoc,
        show st.position + (label.source.length + v.source.length + after.length + 1 + before.length
            + rest.source.length)
          = st.position + label.source.length + v.source.length + after.length + 1 + before.length
            + rest.source.length by omega]

/-- **What the two loops accept is a tree within the limits, and they list it.** -/
theorem value_members_sound (hb : b.length ≤ 4096) (fuel : ℕ) :
    ValueSound b fuel ∧ MembersSound b fuel := by
  induction fuel with
  | zero =>
    refine ⟨fun _ _ _ _ h => ?_, fun _ _ _ _ _ h => ?_⟩
    · rw [value] at h
      cases h
    · rw [members] at h
      cases h
  | succ fuel ih => exact ⟨value_sound_step hb ih.2, members_sound_step hb ih.1 ih.2⟩

/-! ## Every tree within the limits is accepted -/

/-- The first byte of a scalar starts nothing else. -/
theorem scalar_first_solid {c : Byte} (h : scalar_first c = true) :
    is_space c = false ∧ c ≠ 0x22 ∧ ∀ k : Container, c ≠ k.opening ∧ c ≠ k.closing := by
  have hrange : (0x30 ≤ c.toNat ∧ c.toNat ≤ 0x39) ∨ c.toNat = 0x74 ∨ c.toNat = 0x66 ∨
      c.toNat = 0x6e ∨ c.toNat = 0x2d := by
    simp only [scalar_first, digit, ge_iff_le, Bool.or_eq_true, Bool.and_eq_true,
      decide_eq_true_eq, UInt8.le_iff_toNat_le, ← UInt8.toNat_inj, UInt8.toNat_ofNat] at h
    omega
  simp only [is_space, Bool.or_eq_false_iff, decide_eq_false_iff_not, ne_eq, ← UInt8.toNat_inj,
    UInt8.toNat_ofNat]
  refine ⟨by omega, by omega, fun k => ?_⟩
  cases k
  · change c.toNat ≠ 0x5b ∧ c.toNat ≠ 0x5d
    omega
  · change c.toNat ≠ 0x7b ∧ c.toNat ≠ 0x7d
    omega

/-- A value begins neither with a blank nor like the end of a container. -/
theorem value_first (v : Value) :
    ∃ c l, v.source = c :: l ∧ is_space c = false ∧ ∀ k : Container, c ≠ k.closing := by
  have hscalar : ∀ {v : Value}, Scalar v →
      ∃ c l, v.source = c :: l ∧ is_space c = false ∧ ∀ k : Container, c ≠ k.closing := by
    intro v hv
    obtain ⟨c, l, heq, hc⟩ := hv.first
    obtain ⟨hspace, -, hk⟩ := scalar_first_solid hc
    exact ⟨c, l, heq, hspace, fun k => (hk k).2⟩
  cases v with
  | null => exact hscalar .null
  | boolean t => exact hscalar (.boolean t)
  | number n => exact hscalar (.number n)
  | string s => exact ⟨0x22, _, rfl, rfl, fun k => by cases k <;> decide⟩
  | empty k w =>
    refine ⟨k.opening, blank w ++ [k.closing], by rw [Value.source], ?_, fun k' => ?_⟩
    · cases k <;> rfl
    · cases k <;> cases k' <;> decide
  | full k w items =>
    refine ⟨k.opening, blank w ++ (items.source ++ [k.closing]), by rw [Value.source], ?_,
      fun k' => ?_⟩
    · cases k <;> rfl
    · cases k <;> cases k' <;> decide

/-- So do the items of a container. -/
theorem label_value_first (label : Label k) (v : Value) :
    ∃ c l, label.source ++ v.source = c :: l ∧ is_space c = false ∧ c ≠ k.closing := by
  cases label with
  | element =>
    obtain ⟨c, l, heq, hspace, hk⟩ := value_first v
    exact ⟨c, l, heq, hspace, hk .array⟩
  | name s before after => exact ⟨0x22, _, rfl, rfl, by decide⟩

/-- Items start with neither a blank nor the closing bracket. -/
theorem items_first (items : Items k) :
    ∃ c l, items.source = c :: l ∧ is_space c = false ∧ c ≠ k.closing := by
  cases items with
  | last label v after =>
    obtain ⟨c, l, heq, hc⟩ := label_value_first label v
    refine ⟨c, l ++ blank after, ?_, hc⟩
    rw [Items.source, ← List.append_assoc, heq, List.cons_append]
  | more label v after before rest =>
    obtain ⟨c, l, heq, hc⟩ := label_value_first label v
    refine ⟨c, l ++ (blank after ++ 0x2c :: (blank before ++ rest.source)), ?_, hc⟩
    rw [Items.source, ← List.append_assoc, heq, List.cons_append]

/-- The text of a value is not empty, and `whitespace` stops at it. -/
theorem Stands.solid (h : Stands b depth p index v) : p < b.length ∧ Outside is_space b p := by
  obtain ⟨c, l, heq, hc, -⟩ := value_first v
  have hspan := h.spans
  rw [heq, spans_cons] at hspan
  exact ⟨hspan.1.1, outside_of_byte hspan.1.2 hc⟩

/-- `value` with this much fuel accepts the values that stand, and lists them. -/
def ValueComplete (b : List Byte) (fuel : ℕ) : Prop :=
  ∀ {v : Value} {w : List Space} {parent depth : ℕ} {st : State}, 2 * v.source.length ≤ fuel →
    parent ≤ 0xffff → st.position ≤ b.length → Rooted st.tokens →
    Spans b st.position (blank w) → Stands b depth (st.position + w.length) st.tokens.length v →
    Outside in_number b (st.position + w.length + v.source.length) →
    value b fuel parent depth st = some ⟨st.position + w.length + v.source.length,
      st.tokens ++ value_tokens (st.position + w.length) parent st.tokens.length v⟩

/-- `members` with this much fuel accepts the items that stand, and lists them. -/
def MembersComplete (b : List Byte) (fuel : ℕ) : Prop :=
  ∀ {k : Container} {items : Items k} {index depth : ℕ} {st : State},
    2 * items.source.length + 1 ≤ fuel → index < st.tokens.length → st.position ≤ b.length →
    Rooted st.tokens → (∀ r ∈ names b st.tokens index, r ≠ none) →
    StandsItems b (depth + 1) st.position st.tokens.length items (names b st.tokens index) →
    members b fuel index (k = .object) k.closing depth st =
      some ⟨st.position + items.source.length + 1,
        st.tokens ++ items_tokens st.position index st.tokens.length items⟩

/-- A value that stands in the text is accepted, by the kind it is of. -/
theorem value_complete_step (hb : b.length ≤ 4096) (ih : MembersComplete b fuel) :
    ValueComplete b (fuel + 1) := by
  intro v w parent depth st hfuel hparent hp hroot hw hv hend
  obtain ⟨hlt, hsolid⟩ := hv.solid
  have hstart : whitespace b st.position = st.position + w.length :=
    whitespace_complete w hw hsolid hp
  have hstop := hv.spans.le_length hlt.le
  have hcount : st.tokens.length + v.count ≤ 96 := hv.room
  have hpos := v.count_pos
  have hdeep := hv.deep
  have hroom : st.tokens.length ≠ max_tokens := by
    change st.tokens.length ≠ 96
    omega
  -- the scalars share one path: the first byte is neither a quote nor a bracket
  have hscalar : Scalar v → value b (fuel + 1) parent depth st
      = some ⟨st.position + w.length + v.source.length,
        st.tokens ++ value_tokens (st.position + w.length) parent st.tokens.length v⟩ := by
    intro hs
    obtain ⟨c, l, heq, hc⟩ := hs.first
    obtain ⟨-, hquote, hopen⟩ := scalar_first_solid hc
    have hbyte : byte_at b (st.position + w.length) = c := by
      have hspan := hv.spans
      rw [heq, spans_cons] at hspan
      exact hspan.1.2
    rw [value_scalar hstart (by omega) (by omega) hroom (by rw [hbyte]; exact hquote)
      (by rw [hbyte]; exact fun k => (hopen k).1), scalar_complete hs hv.spans hend, Option.map_some,
      scalar_tokens hs, head_token, scalar_count hs]
    dsimp only
    rw [u16_eq (by omega), u16_eq (by omega), u16_eq (by omega), u16_eq (by omega)]
  cases v with
  | null => exact hscalar .null
  | boolean t => exact hscalar (.boolean t)
  | number n => exact hscalar (.number n)
  | string s =>
    have hspan := hv.spans
    rw [Value.source] at hspan ⊢
    have hbyte := (spans_cons.mp hspan).1.2
    have hs : Admitted s := hv.admitted s (by rw [Value.texts]; exact List.mem_cons_self)
    rw [value_text hstart (by omega) (by omega) hroom hbyte,
      @quoted_complete b s ⟨st.position + w.length, st.tokens⟩ parent false hb hparent
        (by change st.tokens.length < 96; omega) hspan hs (fun h => by cases h),
      value_tokens]
    rfl
  | empty k inside =>
    have hspan := hv.spans
    rw [Value.source] at hspan
    simp only [spans_cons, spans_append, spans_nil, and_true, blank_length] at hspan
    obtain ⟨⟨-, hopen⟩, hinside, hclose⟩ := hspan
    have hclose_solid : Outside is_space b (st.position + w.length + 1 + inside.length) :=
      outside_of_byte hclose.2 (by cases k <;> rfl)
    have hinner := whitespace_complete inside hinside hclose_solid (by omega)
    have hlen : (Value.empty k inside).source.length = inside.length + 2 := by
      simp [Value.source]
    rw [Value.depth] at hdeep
    rw [value_container hstart (by omega) (by omega) hroom hopen, hinner, if_pos hclose,
      Option.map_some, close_container_append, value_tokens, head_token, hlen, Value.count,
      List.length_nil]
    rw [hlen] at hstop
    rw [Value.count] at hcount
    rw [u16_eq (by omega), u16_eq (by omega), u16_eq (by omega), u16_eq (by omega)]
    simp only [kind_of, Nat.zero_add, Option.some.injEq, State.mk.injEq,
      List.append_cancel_left_eq, List.cons.injEq, Token.mk.injEq, true_and, and_true]
    omega
  | full k before items =>
    have hspan := hv.spans
    rw [Value.source] at hspan
    obtain ⟨⟨-, hopen⟩, hrest⟩ := spans_cons.mp hspan
    obtain ⟨hbefore, hitems⟩ := spans_append.mp hrest
    rw [blank_length] at hitems
    obtain ⟨c, l, heq, hspace, hnot⟩ := items_first items
    have hbyte : byte_at b (st.position + w.length + 1 + before.length) = c := by
      rw [heq, List.cons_append, spans_cons] at hitems
      exact hitems.1.2
    -- the first byte of an item is neither blank nor the closing bracket
    have hinner := whitespace_complete before hbefore (outside_of_byte hbyte hspace) (by omega)
    have hle := hbefore.le_length (by omega)
    rw [blank_length] at hle
    have hlen : (Value.full k before items).source.length
        = before.length + items.source.length + 2 := by
      simp only [Value.source, List.length_cons, List.length_append, blank_length,
        List.length_nil]
      omega
    rw [hlen] at hstop hfuel ⊢
    rw [Value.depth] at hdeep
    rw [Value.count] at hcount
    have hstands : StandsItems b (depth + 1) (st.position + w.length + 1 + before.length)
        (st.tokens ++ [open_token k (st.position + w.length) parent]).length items
        (names b (st.tokens ++ [open_token k (st.position + w.length) parent])
          st.tokens.length) := by
      rw [names_open hroot, List.length_append, List.length_singleton]
      have htexts := hv.admitted
      have hdistinct := hv.distinct
      rw [Value.texts] at htexts
      rw [Value.Distinct] at hdistinct
      exact ⟨hitems, by omega, by change _ ≤ 96; omega, htexts, hdistinct.2, hdistinct.1,
        fun s _ => List.not_mem_nil⟩
    rw [value_container hstart (by omega) (by omega) hroom hopen, hinner,
      if_neg (by rw [hbyte]; exact fun h => hnot h.2),
      @ih k items st.tokens.length depth ⟨st.position + w.length + 1 + before.length,
        st.tokens ++ [open_token k (st.position + w.length) parent]⟩ (by omega)
        (by simp) hle (rooted_open hroot _ _ _)
        (by rw [names_open hroot]; exact fun r hr => absurd hr List.not_mem_nil) hstands,
      Option.map_some]
    dsimp only
    rw [List.append_assoc, List.singleton_append, close_container_append, value_tokens,
      head_token, hlen, Value.count, items_tokens_length, u16_eq (by omega), u16_eq (by omega),
      u16_eq (by omega), u16_eq (by omega), List.length_append, List.length_singleton]
    simp only [kind_of, Option.some.injEq, State.mk.injEq, List.append_cancel_left_eq,
      List.cons.injEq, Token.mk.injEq, true_and, and_true]
    omega

/-- An item is accepted with its label, whose name is new. -/
theorem item_complete (hb : b.length ≤ 4096) (ih : ValueComplete b fuel)
    {label : Label k} (hfuel : 2 * v.source.length ≤ fuel)
    (hindex : index < st.tokens.length) (hp : st.position ≤ b.length) (hroot : Rooted st.tokens)
    (hlabel : Spans b st.position label.source)
    (hnames : ∀ s ∈ label.names, Admitted s ∧ Fresh b st.tokens index s)
    (hv : Stands b (depth + 1) (st.position + label.source.length)
      (st.tokens.length + label.names.length) v)
    (hend : Outside in_number b (st.position + label.source.length + v.source.length)) :
    (labelled b index k st).bind (value b fuel index (depth + 1)) =
      some ⟨st.position + label.source.length + v.source.length,
        st.tokens ++ (label_tokens st.position index st.tokens.length label ++
          value_tokens (st.position + label.source.length) index
            (st.tokens.length + label.names.length) v)⟩ := by
  have hcount : st.tokens.length + label.names.length + v.count ≤ 96 := hv.room
  have hpos := v.count_pos
  cases label with
  | element =>
    rw [labelled, Option.bind_some]
    exact @ih v [] index (depth + 1) st hfuel (by omega) hp hroot spans_nil hv hend
  | name s before after =>
    obtain ⟨hs, hfresh⟩ := hnames s List.mem_cons_self
    rw [Label.source] at hlabel
    simp only [spans_append, spans_cons, blank_length] at hlabel
    obtain ⟨hspan, hbefore, hcolon, hafter⟩ := hlabel
    have hnew := @rooted_label .object index st.tokens hroot hindex st.position
      (Label.name s before after)
    have hstart := whitespace_complete before hbefore (outside_of_byte hcolon.2 rfl)
      (hspan.le_length hp)
    have hlen : (Label.name s before after).source.length
        = s.source.length + before.length + 1 + after.length := by
      simp only [Label.source, List.length_append, List.length_cons, blank_length]
      omega
    change st.tokens.length + 1 + v.count ≤ 96 at hcount
    rw [labelled, quoted_complete hb (by omega) (by change _ < 96; omega) hspan hs
      fun _ => hfresh]
    dsimp only
    rw [hstart, if_neg (by rw [hcolon.2]; simp only [ne_eq, not_true_eq_false, or_false]; omega),
      Option.bind_some]
    rw [hlen, show st.position + (s.source.length + before.length + 1 + after.length)
      = st.position + s.source.length + before.length + 1 + after.length by omega] at hv hend ⊢
    have htokens : (st.tokens ++ [text_token st.position index st.tokens.length true s]).length
        = st.tokens.length + (Label.name s before after).names.length := List.length_append
    rw [← htokens] at hv ⊢
    rw [@ih v after index (depth + 1)
      ⟨st.position + s.source.length + before.length + 1,
        st.tokens ++ [text_token st.position index st.tokens.length true s]⟩ hfuel (by omega)
      (by dsimp only; omega) hnew hafter hv hend, List.append_assoc]
    rfl

/-- What follows a value in a container does not carry a number on. -/
theorem outside_in_number_blank {w : List Space} {c : Byte}
    (h : Spans b p (blank w ++ [c])) (hc : in_number c = false) : Outside in_number b p := by
  cases w with
  | nil => exact outside_of_byte (spans_cons.mp h).1.2 hc
  | cons s w =>
    refine outside_of_byte (spans_cons.mp h).1.2 ?_
    cases s <;> rfl

/-- Items are accepted one after the other, up to the closing bracket. -/
theorem members_complete_step (hb : b.length ≤ 4096) (ihv : ValueComplete b fuel)
    (ihm : MembersComplete b fuel) : MembersComplete b (fuel + 1) := by
  intro k items index depth st hfuel hindex hp hroot hnone h
  have hclosing : in_number k.closing = false ∧ is_space k.closing = false ∧ k.closing ≠ 0x2c := by
    cases k <;> decide
  rw [members_eq]
  cases items with
  | last label v after =>
    obtain ⟨hlabel, hnames, hv, hafter⟩ := standsItems_last_iff.mp h
    have hlen : (Items.last label v after).source.length
        = label.source.length + v.source.length + after.length := by
      rw [Items.source, List.length_append, List.length_append, blank_length, ← Nat.add_assoc]
    rw [hlen] at hfuel ⊢
    rw [item_complete hb ihv (by omega) hindex hp hroot hlabel
      (fun s hs => ⟨(hnames s hs).1, fun r hr => ⟨hnone r hr, fun heq =>
        (hnames s hs).2 (heq ▸ hr)⟩⟩) hv (outside_in_number_blank hafter hclosing.1),
      Option.bind_some, after_item]
    dsimp only
    obtain ⟨hblank, hend⟩ := spans_append.mp hafter
    rw [blank_length] at hend
    obtain ⟨⟨hlt, hbyte⟩, -⟩ := spans_cons.mp hend
    rw [whitespace_complete after hblank (outside_of_byte hbyte hclosing.2.1) (by omega),
      if_neg (by omega), if_pos hbyte, items_tokens, ← Nat.add_assoc, ← Nat.add_assoc]
  | more label v after before rest =>
    obtain ⟨hlabel, hnames, hv, hafter, hbefore, hrest⟩ := standsItems_more_iff.mp h
    have hlen : (Items.more label v after before rest).source.length
        = label.source.length + v.source.length + after.length + 1 + before.length
          + rest.source.length := by
      simp only [Items.source, List.length_append, List.length_cons, blank_length]
      omega
    rw [hlen] at hfuel ⊢
    rw [item_complete hb ihv (by omega) hindex hp hroot hlabel
      (fun s hs => ⟨(hnames s hs).1, fun r hr => ⟨hnone r hr, fun heq =>
        (hnames s hs).2 (heq ▸ hr)⟩⟩) hv (outside_in_number_blank hafter rfl),
      Option.bind_some, after_item]
    dsimp only
    obtain ⟨hblank, hend⟩ := spans_append.mp hafter
    rw [blank_length] at hend
    obtain ⟨⟨hlt, hbyte⟩, -⟩ := spans_cons.mp hend
    obtain ⟨c, l, heq, hspace, -⟩ := items_first rest
    have hfirst : byte_at b (st.position + label.source.length + v.source.length + after.length
        + 1 + before.length) = c := by
      have hspans := hrest.spans
      rw [heq, List.cons_append, spans_cons] at hspans
      exact hspans.1.2
    -- the tokens of the item are there when the rest is read, its name among those seen
    have hlength : (st.tokens ++ (label_tokens st.position index st.tokens.length label ++
        value_tokens (st.position + label.source.length) index
          (st.tokens.length + label.names.length) v)).length
        = st.tokens.length + label.names.length + v.count := by
      simp only [List.length_append, label_tokens_length, value_tokens_length, Nat.add_assoc]
    have hadmitted : ∀ s ∈ label.names, Admitted s := fun s hs => (hnames s hs).1
    have hle := hbefore.le_length (by omega)
    rw [blank_length] at hle
    rw [whitespace_complete after hblank (outside_of_byte hbyte rfl) (by omega),
      if_neg (by omega), if_neg (by rw [hbyte]; exact hclosing.2.2.symm),
      if_neg (not_not.mpr hbyte),
      whitespace_complete before hbefore (outside_of_byte hfirst hspace) (by omega),
      @ihm k rest index depth
        ⟨st.position + label.source.length + v.source.length + after.length + 1 + before.length,
          st.tokens ++ (label_tokens st.position index st.tokens.length label ++
            value_tokens (st.position + label.source.length) index
              (st.tokens.length + label.names.length) v)⟩ (by omega)
        (by rw [hlength]; omega) hle (rooted_item hroot hindex _ _ label v) ?_
        (by rw [hlength, names_item hindex hlabel hadmitted]; exact hrest)]
    · dsimp only
      rw [items_tokens, hlength, List.append_assoc, List.append_assoc,
        show st.position + (label.source.length + v.source.length + after.length + 1
            + before.length + rest.source.length)
          = st.position + label.source.length + v.source.length + after.length + 1
            + before.length + rest.source.length by omega]
    · rw [names_item hindex hlabel hadmitted]
      intro r hr
      rcases List.mem_append.mp hr with hr | hr
      · exact hnone r hr
      · obtain ⟨s, -, rfl⟩ := List.mem_map.mp hr
        exact Option.some_ne_none _

/-- **The two loops accept every tree within the limits, and list it.** -/
theorem value_members_complete (hb : b.length ≤ 4096) (fuel : ℕ) :
    ValueComplete b fuel ∧ MembersComplete b fuel := by
  induction fuel with
  | zero =>
    refine ⟨?_, fun hfuel _ _ _ _ _ => absurd hfuel (by omega)⟩
    intro v w parent depth st hfuel
    obtain ⟨c, l, heq, -⟩ := value_first v
    rw [heq, List.length_cons] at hfuel
    omega
  | succ fuel ih => exact ⟨value_complete_step hb ih.2, members_complete_step hb ih.1 ih.2⟩

/-! ## Documents -/

/-- The limits of the validator on a value. -/
structure Within (v : Value) : Prop where
  deep : v.depth ≤ max_depth
  room : v.count ≤ max_tokens
  admitted : ∀ s ∈ v.texts, Admitted s
  distinct : v.Distinct

theorem stands_root_iff : Stands b 0 p 0 v ↔ Spans b p v.source ∧ Within v := by
  constructor
  · rintro ⟨hspans, hdeep, hroom, hadmitted, hdistinct⟩
    rw [Nat.zero_add] at hdeep hroom
    exact ⟨hspans, hdeep, hroom, hadmitted, hdistinct⟩
  · rintro ⟨hspans, hdeep, hroom, hadmitted, hdistinct⟩
    refine ⟨hspans, ?_, ?_, hadmitted, hdistinct⟩
    · rwa [Nat.zero_add]
    · rwa [Nat.zero_add]

theorem spans_zero_self {l : List Byte} (h : Spans b 0 l) (hlen : l.length = b.length) : b = l := by
  rw [Spans, List.drop_zero] at h
  exact (h.eq_of_length hlen).symm

theorem outside_blank_end {w : List Space} (h : Spans b p (blank w))
    (hend : p + w.length = b.length) : Outside in_number b p := by
  cases w with
  | nil =>
    intro hp
    rw [List.length_nil] at hend
    omega
  | cons s w =>
    refine outside_of_byte (spans_cons.mp h).1.2 ?_
    cases s <;> rfl

/-- **`parse` accepts a text of 1 to 4096 bytes exactly if it is a value within the limits,
between blanks, and its table is then the listing of that value.** -/
theorem parse_eq_some_iff (b : List Byte) (d : Document) :
    Document.parse b = some d ↔ (1 ≤ b.length ∧ b.length ≤ 4096) ∧
      ∃ (before after : List Space) (v : Value), b = blank before ++ (v.source ++ blank after) ∧
        Within v ∧ d = ⟨b, value_tokens before.length 0xffff 0 v⟩ := by
  constructor
  · intro h
    rw [Document.parse] at h
    split_ifs at h with hsize
    have hlen : 1 ≤ b.length ∧ b.length ≤ 4096 := by omega
    refine ⟨hlen, ?_⟩
    cases hread : value b (2 * b.length + 2) 0xffff 0 ⟨0, []⟩ with
    | none =>
      rw [hread] at h
      cases h
    | some st =>
      rw [hread] at h
      dsimp only at h
      split_ifs at h with hend
      obtain ⟨before, v, hbefore, hv, rfl⟩ := (value_members_sound hlen.2 _).1 le_rfl
        (Nat.zero_le _) (Nat.zero_le _) (fun t ht => absurd ht List.not_mem_nil) hread
      obtain ⟨hspans, hwithin⟩ := stands_root_iff.mp hv
      obtain ⟨after, hafter, heq, -⟩ := whitespace_sound b (0 + before.length + v.source.length)
      rw [not_not, heq] at hend
      refine ⟨before, after, v, spans_zero_self ?_ ?_, hwithin, ?_⟩
      · rw [spans_append, spans_append, blank_length]
        exact ⟨hbefore, hspans, hafter⟩
      · rw [List.length_append, List.length_append, blank_length, blank_length]
        omega
      · rw [Option.some.injEq] at h
        rw [← h, List.nil_append, Nat.zero_add]
        rfl
  · rintro ⟨hlen, before, after, v, hb, hwithin, rfl⟩
    have hspans : Spans b 0 (blank before ++ (v.source ++ blank after)) := by
      rw [← hb]
      exact List.prefix_rfl
    rw [spans_append, spans_append, blank_length] at hspans
    obtain ⟨hbefore, hv, hafter⟩ := hspans
    have hsum : b.length = before.length + (v.source.length + after.length) := by
      have hcount := congrArg List.length hb
      rwa [List.length_append, List.length_append, blank_length, blank_length] at hcount
    -- the fuel of `parse` is enough for any text of this length
    have hread := @(value_members_complete hlen.2 (2 * b.length + 2)).1 v before 0xffff 0 ⟨0, []⟩
      (by omega) le_rfl (Nat.zero_le _) (fun t ht => absurd ht List.not_mem_nil) hbefore
      (stands_root_iff.mpr ⟨hv, hwithin⟩) (outside_blank_end hafter (by dsimp only; omega))
    dsimp only at hread
    rw [Document.parse, if_neg (by omega), hread]
    dsimp only
    rw [whitespace_complete after hafter (fun hp => by omega) (by omega), if_neg (by omega),
      List.nil_append, Nat.zero_add]
    rfl

/-- **The validator accepts exactly its grammar: one value of 1 to 4096 bytes with its blanks,
whose strings decode to at most 64 bytes without a NUL, whose objects do not name a member
twice, with at most eight containers around a value and at most 96 values and names.** -/
theorem validator_accepts_grammar (b : List Byte) :
    (Document.parse b).isSome = true ↔ 1 ≤ b.length ∧ b.length ≤ 4096 ∧
      ∃ (before after : List Space) (v : Value), b = blank before ++ (v.source ++ blank after) ∧
        (∀ s ∈ v.texts, s.decoded.length ≤ 64 ∧ ∀ c ∈ s.chars, c.toNat ≠ 0) ∧ v.Distinct ∧
        v.depth ≤ 8 ∧ v.count ≤ 96 := by
  rw [Option.isSome_iff_exists]
  constructor
  · rintro ⟨d, h⟩
    obtain ⟨⟨hmin, hmax⟩, before, after, v, hb, hv, -⟩ := (parse_eq_some_iff b d).mp h
    exact ⟨hmin, hmax, before, after, v, hb,
      fun s hs => ⟨(hv.admitted s hs).short, (hv.admitted s hs).no_nul⟩, hv.distinct, hv.deep,
      hv.room⟩
  · rintro ⟨hmin, hmax, before, after, v, hb, htexts, hdistinct, hdeep, hroom⟩
    refine ⟨_, (parse_eq_some_iff b _).mpr ⟨⟨hmin, hmax⟩, before, after, v, hb, ?_, rfl⟩⟩
    exact ⟨hdeep, hroom, fun s hs => ⟨(htexts s hs).1, (htexts s hs).2⟩, hdistinct⟩

end Firmingo.Json
