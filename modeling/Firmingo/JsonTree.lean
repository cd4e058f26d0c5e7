/-
The token table of `src/core/json.cpp` as the listing of a syntax tree.

`value_tokens` says which token each node of a tree has, in preorder, and with it what
every field of a token means. The table is also what the parser itself looks back at,
since a member name is refused if an earlier token of its object reads the same:
`names` is that view of a table, and `quoted` is settled here with it. `Stands` and
`StandsItems` say of a tree that it stands in the text within the limits of the
validator, and the two loops of `Document::value` are cut into the branches that the
proofs about them go through.
-/
import Firmingo.JsonScalars

set_option autoImplicit false

open Octets JsonGrammar

namespace Firmingo.Json

variable {b : List Byte} {k : Container}

/-! ## The listing of a tree -/

/-- The token of a string whose text begins at `start`. -/
def text_token (start parent index : ℕ) (key : Bool) (s : Text) : Token :=
  ⟨.string, start, start + s.source.length, parent, index + 1, key⟩

/-- The token of a value: where its text begins and ends, the index of the container
it stands in, and the index behind the last token of what it contains. -/
def head_token (start parent index : ℕ) (v : Value) : Token :=
  ⟨kind_of v, start, start + v.source.length, parent, index + v.count, false⟩

/-- A member name is a token of its object. -/
def label_tokens (start parent index : ℕ) (label : Label k) : List Token :=
  label.names.map (text_token start parent index true)

mutual

/-- The tokens of a value whose text begins at `start`: its own first, at `index`, then
those of what it contains, whose parent it is. -/
def value_tokens (start parent index : ℕ) : Value → List Token
  | .null => [head_token start parent index .null]
  | .boolean t => [head_token start parent index (.boolean t)]
  | .number n => [head_token start parent index (.number n)]
  | .string s => [head_token start parent index (.string s)]
  | .empty k inside => [head_token start parent index (.empty k inside)]
  | .full k before items =>
    head_token start parent index (.full k before items) ::
      items_tokens (start + 1 + before.length) index (index + 1) items

def items_tokens {k : Container} (start parent index : ℕ) : Items k → List Token
  | .last label value _ =>
    label_tokens start parent index label ++
      value_tokens (start + label.source.length) parent (index + label.names.length) value
  | .more label value after before rest =>
    label_tokens start parent index label ++
      (value_tokens (start + label.source.length) parent (index + label.names.length) value ++
        items_tokens
          (start + label.source.length + value.source.length + after.length + 1 + before.length)
          parent (index + label.names.length + value.count) rest)

end

@[simp] theorem label_tokens_length (start parent index : ℕ) (label : Label k) :
    (label_tokens start parent index label).length = label.names.length := by
  rw [label_tokens, List.length_map]

mutual

theorem value_tokens_length (start parent index : ℕ) :
    ∀ v : Value, (value_tokens start parent index v).length = v.count
  | .null | .boolean _ | .number _ | .string _ | .empty _ _ => rfl
  | .full k before items => by
      rw [value_tokens, List.length_cons, items_tokens_length, Value.count]
      omega

theorem items_tokens_length {k : Container} (start parent index : ℕ) :
    ∀ items : Items k, (items_tokens start parent index items).length = items.count
  | .last label value after => by
      rw [items_tokens, List.length_append, label_tokens_length, value_tokens_length, Items.count]
  | .more label value after before rest => by
      rw [items_tokens, List.length_append, List.length_append, label_tokens_length,
        value_tokens_length, items_tokens_length, Items.count]

end

mutual

/-- The member names within a value belong to objects within it. -/
theorem value_tokens_keys (start parent index : ℕ) :
    ∀ v : Value, ∀ t ∈ value_tokens start parent index v, t.key = true →
      index ≤ t.parent ∧ t.parent < index + v.count
  | .null, t, ht, hk | .boolean _, t, ht, hk | .number _, t, ht, hk | .string _, t, ht, hk
  | .empty _ _, t, ht, hk => by
      rw [value_tokens, List.mem_singleton] at ht
      subst ht
      cases hk
  | .full k before items, t, ht, hk => by
      rw [value_tokens, List.mem_cons] at ht
      rw [Value.count]
      rcases ht with rfl | ht
      · cases hk
      · rcases items_tokens_keys _ _ _ items t ht hk with h | h
        · omega
        · omega

/-- The parent of a name is the container, or one among its items. -/
theorem items_tokens_keys {k : Container} (start parent index : ℕ) :
    ∀ items : Items k, ∀ t ∈ items_tokens start parent index items, t.key = true →
      t.parent = parent ∨ index ≤ t.parent ∧ t.parent < index + items.count
  | .last label value after, t, ht, hk => by
      rw [items_tokens, List.mem_append] at ht
      rw [Items.count]
      rcases ht with ht | ht
      · obtain ⟨s, -, rfl⟩ := List.mem_map.mp ht
        exact Or.inl rfl
      · have h := value_tokens_keys _ _ _ value t ht hk
        omega
  | .more label value after before rest, t, ht, hk => by
      rw [items_tokens, List.mem_append, List.mem_append] at ht
      rw [Items.count]
      rcases ht with ht | ht | ht
      · obtain ⟨s, -, rfl⟩ := List.mem_map.mp ht
        exact Or.inl rfl
      · have h := value_tokens_keys _ _ _ value t ht hk
        omega
      · rcases items_tokens_keys _ _ _ rest t ht hk with h | h
        · exact Or.inl h
        · omega

end

/-! ## Member names in a table -/

/-- `Document::string` for one token. -/
def read (b : List Byte) (capacity : ℕ) (t : Token) : Option (List Byte) :=
  if t.kind ≠ .string then none else (text b t.stop t.start (some capacity)).map Prod.fst

theorem string_at_eq (tokens : List Token) (index capacity : ℕ) :
    string_at b tokens index capacity = tokens[index]?.bind (read b capacity) := by
  rw [string_at]
  cases tokens[index]? <;> rfl

/-- Where a string stands, its token reads as what it denotes, if that and a NUL fit. -/
theorem read_text {s : Text} {start : ℕ} {t : Token} (capacity : ℕ)
    (hkind : t.kind = .string) (hstart : t.start = start) (hstop : t.stop = start + s.source.length)
    (h : Spans b start s.source) (hs : Admitted s) :
    read b capacity t = if s.decoded.length < capacity then some s.decoded else none := by
  rw [read, if_neg (not_not.mpr hkind), hstart, hstop, text_eq s _ h le_rfl]
  by_cases hfits : s.decoded.length < capacity
  · rw [if_pos ⟨hs, by simp only [overflows, decide_eq_false_iff_not]; omega⟩, if_pos hfits]
    rfl
  · rw [if_neg (fun hno => ?_), if_neg hfits]
    · rfl
    · have hover := hno.2
      simp only [overflows, decide_eq_false_iff_not] at hover
      omega

/-- The buffers of the source for member names hold every admitted string. -/
theorem read_name {s : Text} {start parent index : ℕ} {key : Bool} (h : Spans b start s.source)
    (hs : Admitted s) : read b 65 (text_token start parent index key s) = some s.decoded := by
  have hshort : s.decoded.length < 65 := Nat.lt_succ_of_le hs.short
  rw [read_text 65 rfl rfl rfl h hs, if_pos hshort]

/-- What the member names of the object at `parent` read as. -/
def names (b : List Byte) (tokens : List Token) (parent : ℕ) : List (Option (List Byte)) :=
  (tokens.filter fun t => t.key && t.parent == parent).map (read b 65)

theorem names_append (l m : List Token) (parent : ℕ) :
    names b (l ++ m) parent = names b l parent ++ names b m parent := by
  rw [names, List.filter_append, List.map_append, names, names]

theorem names_eq_nil {tokens : List Token} {parent : ℕ}
    (h : ∀ t ∈ tokens, t.key = true → t.parent ≠ parent) : names b tokens parent = [] := by
  rw [names, List.map_eq_nil_iff, List.filter_eq_nil_iff]
  intro t ht hkey
  rw [Bool.and_eq_true, beq_iff_eq] at hkey
  exact h t ht hkey.1 hkey.2

theorem names_value {start parent index within : ℕ} (h : within < index) (v : Value) :
    names b (value_tokens start parent index v) within = [] := by
  refine names_eq_nil fun t ht hkey hsame => ?_
  have hrange := value_tokens_keys start parent index v t ht hkey
  omega

/-- `duplicate` looks at the names of one object. -/
theorem duplicate_eq_false_iff (tokens rest : List Token) (parent : ℕ) (name : List Byte) :
    duplicate b (tokens ++ rest) parent tokens.length name = false ↔
      ∀ r ∈ names b tokens parent, r ≠ none ∧ r ≠ some name := by
  have hlook : ∀ i t, i < tokens.length → tokens[i]? = some t →
      (tokens ++ rest)[i]? = some t := by
    intro i t hi ht
    rw [List.getElem?_append_left hi, ht]
  rw [duplicate, List.any_eq_false]
  constructor
  · intro h r hr
    obtain ⟨t, ht, rfl⟩ := List.mem_map.mp hr
    obtain ⟨hmem, hkey⟩ := List.mem_filter.mp ht
    obtain ⟨i, hi, rfl⟩ := List.getElem_of_mem hmem
    have hno := h i (List.mem_range.mpr hi)
    rw [string_at_eq, hlook i _ hi (List.getElem?_eq_getElem hi)] at hno
    dsimp only [Option.bind_some] at hno
    rw [hkey, Bool.true_and] at hno
    cases hread : read b 65 tokens[i] with
    | none =>
      rw [hread] at hno
      exact absurd rfl hno
    | some previous =>
      rw [hread] at hno
      refine ⟨by simp, fun hsame => hno ?_⟩
      rw [Option.some.injEq] at hsame
      exact beq_iff_eq.mpr hsame
  · intro h i hi
    rw [List.mem_range] at hi
    rw [string_at_eq, hlook i _ hi (List.getElem?_eq_getElem hi)]
    dsimp only [Option.bind_some]
    cases hkey : (tokens[i].key && tokens[i].parent == parent) with
    | false => simp
    | true =>
      have hmem : read b 65 tokens[i] ∈ names b tokens parent :=
        List.mem_map.mpr ⟨_, List.mem_filter.mpr ⟨List.getElem_mem hi, hkey⟩, rfl⟩
      obtain ⟨hsome, hne⟩ := h _ hmem
      rw [Bool.true_and]
      cases hread : read b 65 tokens[i] with
      | none => exact absurd hread hsome
      | some previous =>
        rw [hread] at hne
        intro hsame
        exact hne (by rw [beq_iff_eq.mp hsame])

/-! ## Strings in the table -/

theorem u16_eq {n : ℕ} (h : n < 65536) : u16 n = n := Nat.mod_eq_of_lt h

/-- A name is new in its object. -/
def Fresh (b : List Byte) (tokens : List Token) (parent : ℕ) (s : Text) : Prop :=
  ∀ r ∈ names b tokens parent, r ≠ none ∧ r ≠ some s.decoded

/-- Where an admitted string stands, `quoted` adds its token, unless it is a name that
its object already has. -/
theorem quoted_eq {s : Text} {st : State} {parent : ℕ} {key : Bool}
    (hb : b.length ≤ 4096) (hparent : parent ≤ 0xffff) (hroom : st.tokens.length < max_tokens)
    (h : Spans b st.position s.source) (hs : Admitted s) :
    quoted b parent key st =
      if key && duplicate b (st.tokens ++ [text_token st.position parent st.tokens.length key s])
          parent st.tokens.length s.decoded then none
      else some ⟨st.position + s.source.length,
        st.tokens ++ [text_token st.position parent st.tokens.length key s]⟩ := by
  have hp : st.position < b.length := (spans_cons.mp h).1.1
  have hle := h.le_length hp.le
  have hcount : st.tokens.length < 96 := hroom
  have htoken : (⟨.string, u16 st.position, u16 (st.position + s.source.length), u16 parent,
      u16 (st.tokens.length + 1), key⟩ : Token)
        = text_token st.position parent st.tokens.length key s := by
    rw [text_token, u16_eq (by omega), u16_eq (by omega), u16_eq (by omega), u16_eq (by omega)]
  rw [quoted, if_neg (by omega), text_eq s none h hle, if_pos ⟨hs, overflows_none _⟩]
  dsimp only
  rw [htoken]
  cases key with
  | false => rfl
  | true =>
    rw [if_pos rfl, string_at_eq, List.getElem?_append_right le_rfl, Nat.sub_self,
      List.getElem?_cons_zero, Option.bind_some, read_name h hs, Bool.true_and]

theorem quoted_complete {s : Text} {st : State} {parent : ℕ} {key : Bool} (hb : b.length ≤ 4096)
    (hparent : parent ≤ 0xffff) (hroom : st.tokens.length < max_tokens) (h : Spans b st.position s.source)
    (hs : Admitted s) (hfresh : key = true → Fresh b st.tokens parent s) :
    quoted b parent key st = some ⟨st.position + s.source.length,
      st.tokens ++ [text_token st.position parent st.tokens.length key s]⟩ := by
  rw [quoted_eq hb hparent hroom h hs, if_neg]
  intro hdup
  rw [Bool.and_eq_true] at hdup
  rw [(duplicate_eq_false_iff _ _ _ _).mpr (hfresh hdup.1)] at hdup
  cases hdup.2

/-- What `quoted` accepts is an admitted string, new in its object if it is a name. -/
theorem quoted_sound {st st' : State} {parent : ℕ} {key : Bool}
    (hb : b.length ≤ 4096) (hparent : parent ≤ 0xffff) (hroom : st.tokens.length ≤ max_tokens)
    (h : quoted b parent key st = some st') :
    ∃ s : Text, Spans b st.position s.source ∧ Admitted s ∧ st.tokens.length < max_tokens ∧
      (key = true → Fresh b st.tokens parent s) ∧
      st' = ⟨st.position + s.source.length,
        st.tokens ++ [text_token st.position parent st.tokens.length key s]⟩ := by
  have hcount : st.tokens.length < max_tokens := by
    rcases Nat.lt_or_eq_of_le hroom with hlt | heq
    · exact hlt
    · rw [quoted, if_pos heq] at h
      cases h
  obtain ⟨out, q, hread⟩ : ∃ out q, text b b.length st.position none = some (out, q) := by
    cases hread : text b b.length st.position none with
    | none =>
      rw [quoted, if_neg (by omega), hread] at h
      cases h
    | some r => exact ⟨r.1, r.2, rfl⟩
  obtain ⟨s, hs, -, hspan, rfl⟩ := text_sound hread
  rw [quoted_eq hb hparent hcount hspan hs] at h
  split_ifs at h with hdup
  refine ⟨s, hspan, hs, hcount, ?_, (Option.some.inj h).symm⟩
  rintro rfl
  rw [Bool.true_and, Bool.not_eq_true] at hdup
  exact (duplicate_eq_false_iff _ _ _ _).mp hdup

/-! ## What is read, and what can be -/

/-- A value stands at `p` within the limits, `depth` containers deep and as token `index`. -/
structure Stands (b : List Byte) (depth p index : ℕ) (v : Value) : Prop where
  spans : Spans b p v.source
  deep : depth + v.depth ≤ max_depth
  room : index + v.count ≤ max_tokens
  admitted : ∀ s ∈ v.texts, Admitted s
  distinct : v.Distinct

/-- The rest of the items of a container stand at `p` within the limits, and none has a
name of `seen`. -/
structure StandsItems (b : List Byte) (depth p index : ℕ) (items : Items k)
    (seen : List (Option (List Byte))) : Prop where
  spans : Spans b p (items.source ++ [k.closing])
  deep : depth + items.depth ≤ max_depth
  room : index + items.count ≤ max_tokens
  admitted : ∀ s ∈ items.texts, Admitted s
  distinct : items.Distinct
  nodup : (items.names.map Text.decoded).Nodup
  fresh : ∀ s ∈ items.names, some s.decoded ∉ seen

theorem label_names_nodup (label : Label k) : (label.names.map Text.decoded).Nodup := by
  cases label with
  | element => exact List.nodup_nil
  | name s before after => exact List.nodup_singleton _

theorem standsItems_last_iff {depth p index : ℕ} {label : Label k} {v : Value} {after : List Space}
    {seen : List (Option (List Byte))} :
    StandsItems b depth p index (.last label v after) seen ↔
      Spans b p label.source ∧ (∀ s ∈ label.names, Admitted s ∧ some s.decoded ∉ seen) ∧
      Stands b depth (p + label.source.length) (index + label.names.length) v ∧
      Spans b (p + label.source.length + v.source.length) (blank after ++ [k.closing]) := by
  constructor
  · rintro ⟨hspans, hdeep, hroom, htexts, hdistinct, -, hfresh⟩
    rw [Items.source, List.append_assoc, List.append_assoc, spans_append, spans_append] at hspans
    rw [Items.depth] at hdeep
    rw [Items.count, ← Nat.add_assoc] at hroom
    rw [Items.texts] at htexts
    rw [Items.Distinct] at hdistinct
    rw [Items.names] at hfresh
    exact ⟨hspans.1, fun s hs => ⟨htexts s (List.mem_append_left _ hs), hfresh s hs⟩,
      ⟨hspans.2.1, hdeep, hroom, fun s hs => htexts s (List.mem_append_right _ hs), hdistinct⟩,
      hspans.2.2⟩
  · rintro ⟨hlabel, hnames, hv, hafter⟩
    refine ⟨?_, ?_, ?_, ?_, ?_, ?_, ?_⟩
    · rw [Items.source, List.append_assoc, List.append_assoc, spans_append, spans_append]
      exact ⟨hlabel, hv.spans, hafter⟩
    · rw [Items.depth]
      exact hv.deep
    · rw [Items.count, ← Nat.add_assoc]
      exact hv.room
    · rw [Items.texts]
      intro s hs
      rcases List.mem_append.mp hs with hs | hs
      · exact (hnames s hs).1
      · exact hv.admitted s hs
    · rw [Items.Distinct]
      exact hv.distinct
    · rw [Items.names]
      exact label_names_nodup label
    · rw [Items.names]
      exact fun s hs => (hnames s hs).2

/-- An item that others follow: the item stands, then the comma, then the rest without its name. -/
theorem standsItems_more_iff {depth p index : ℕ} {label : Label k} {v : Value}
    {after before : List Space} {rest : Items k} {seen : List (Option (List Byte))} :
    StandsItems b depth p index (.more label v after before rest) seen ↔
      Spans b p label.source ∧ (∀ s ∈ label.names, Admitted s ∧ some s.decoded ∉ seen) ∧
      Stands b depth (p + label.source.length) (index + label.names.length) v ∧
      Spans b (p + label.source.length + v.source.length) (blank after ++ [0x2c]) ∧
      Spans b (p + label.source.length + v.source.length + after.length + 1) (blank before) ∧
      StandsItems b depth
        (p + label.source.length + v.source.length + after.length + 1 + before.length)
        (index + label.names.length + v.count) rest
        (seen ++ label.names.map fun s => some s.decoded) := by
  have hspans_iff : Spans b p ((Items.more label v after before rest).source ++ [k.closing]) ↔
      Spans b p label.source ∧ Spans b (p + label.source.length) v.source ∧
      Spans b (p + label.source.length + v.source.length) (blank after ++ [0x2c]) ∧
      Spans b (p + label.source.length + v.source.length + after.length + 1) (blank before) ∧
      Spans b (p + label.source.length + v.source.length + after.length + 1 + before.length)
        (rest.source ++ [k.closing]) := by
    have hsource : (Items.more label v after before rest).source ++ [k.closing]
        = label.source ++ (v.source ++ ((blank after ++ [0x2c]) ++ (blank before
          ++ (rest.source ++ [k.closing])))) := by
      simp only [Items.source, List.append_assoc, List.cons_append, List.nil_append]
    rw [hsource, spans_append, spans_append, spans_append, @spans_append _ _ (blank before),
      List.length_append, blank_length, blank_length, List.length_singleton, ← Nat.add_assoc]
  constructor
  · rintro ⟨hspans, hdeep, hroom, htexts, hdistinct, hnodup, hfresh⟩
    obtain ⟨hlabel, hvalue, hafter, hbefore, hrest⟩ := hspans_iff.mp hspans
    rw [Items.depth] at hdeep
    rw [Items.count] at hroom
    rw [Items.texts] at htexts
    rw [Items.Distinct] at hdistinct
    rw [Items.names] at hfresh
    rw [Items.names, List.map_append, List.nodup_append] at hnodup
    refine ⟨hlabel,
      fun s hs => ⟨htexts s (List.mem_append_left _ hs), hfresh s (List.mem_append_left _ hs)⟩,
      ⟨hvalue, by omega, by omega,
        fun s hs => htexts s (List.mem_append_right _ (List.mem_append_left _ hs)), hdistinct.1⟩,
      hafter, hbefore, hrest, by omega, by omega,
      fun s hs => htexts s (List.mem_append_right _ (List.mem_append_right _ hs)), hdistinct.2,
      hnodup.2.1, ?_⟩
    -- a later name is new to what came before the item, and to the item's own name
    intro s hs hmem
    rcases List.mem_append.mp hmem with hmem | hmem
    · exact hfresh s (List.mem_append_right _ hs) hmem
    · obtain ⟨t, ht, hsame⟩ := List.mem_map.mp hmem
      exact hnodup.2.2 _ (List.mem_map_of_mem ht) _ (List.mem_map_of_mem hs)
        (Option.some.inj hsame)
  · rintro ⟨hlabel, hnames, hv, hafter, hbefore, hrest⟩
    refine ⟨hspans_iff.mpr ⟨hlabel, hv.spans, hafter, hbefore, hrest.spans⟩, ?_, ?_, ?_, ?_, ?_, ?_⟩
    · rw [Items.depth]
      have h1 := hv.deep
      have h2 := hrest.deep
      omega
    · rw [Items.count]
      have h2 := hrest.room
      omega
    · rw [Items.texts]
      intro s hs
      rcases List.mem_append.mp hs with hs | hs
      · exact (hnames s hs).1
      · rcases List.mem_append.mp hs with hs | hs
        · exact hv.admitted s hs
        · exact hrest.admitted s hs
    · rw [Items.Distinct]
      exact ⟨hv.distinct, hrest.distinct⟩
    · rw [Items.names, List.map_append]
      refine List.nodup_append.mpr ⟨label_names_nodup label, hrest.nodup, ?_⟩
      rintro _ ha c hc rfl
      obtain ⟨s, hs, rfl⟩ := List.mem_map.mp ha
      obtain ⟨t, ht, hsame⟩ := List.mem_map.mp hc
      refine hrest.fresh t ht (List.mem_append_right _ ?_)
      exact List.mem_map.mpr ⟨s, hs, by rw [hsame]⟩
    · rw [Items.names]
      intro s hs hmem
      rcases List.mem_append.mp hs with hs | hs
      · exact (hnames s hs).2 hmem
      · exact hrest.fresh s hs (List.mem_append_left _ hmem)

/-- The member names of a table belong to objects of the table. -/
def Rooted (tokens : List Token) : Prop := ∀ t ∈ tokens, t.key = true → t.parent < tokens.length

theorem rooted_append {tokens more : List Token} (h : Rooted tokens)
    (hmore : ∀ t ∈ more, t.key = true → t.parent < tokens.length + more.length) :
    Rooted (tokens ++ more) := by
  intro t ht hkey
  rw [List.length_append]
  rcases List.mem_append.mp ht with ht | ht
  · exact Nat.lt_add_right _ (h t ht hkey)
  · exact hmore t ht hkey

theorem rooted_value {tokens : List Token} (h : Rooted tokens) (start parent : ℕ) (v : Value) :
    Rooted (tokens ++ value_tokens start parent tokens.length v) := by
  refine rooted_append h fun t ht hkey => ?_
  rw [value_tokens_length]
  exact (value_tokens_keys _ _ _ v t ht hkey).2

/-! ## The two loops, branch by branch -/

variable {fuel parent depth start : ℕ} {st : State}

theorem value_text (hstart : whitespace b st.position = start) (hdepth : depth ≤ max_depth)
    (hend : start ≠ b.length) (hroom : st.tokens.length ≠ max_tokens) (hbyte : byte_at b start = 0x22) :
    value b (fuel + 1) parent depth st = quoted b parent false ⟨start, st.tokens⟩ := by
  subst hstart
  rw [value, if_neg (by omega), if_pos hbyte]

theorem value_scalar (hstart : whitespace b st.position = start) (hdepth : depth ≤ max_depth)
    (hend : start ≠ b.length) (hroom : st.tokens.length ≠ max_tokens)
    (htext : byte_at b start ≠ 0x22) (hopen : ∀ k : Container, byte_at b start ≠ k.opening) :
    value b (fuel + 1) parent depth st = (scalar b start).map fun r =>
      ⟨r.2, st.tokens ++
        [⟨r.1, u16 start, u16 r.2, u16 parent, u16 (st.tokens.length + 1), false⟩]⟩ := by
  subst hstart
  have hnot : ¬ (byte_at b (whitespace b st.position) = 0x7b ∨
      byte_at b (whitespace b st.position) = 0x5b) :=
    fun h => h.elim (hopen .object) (hopen .array)
  rw [value, if_neg (by omega), if_neg htext, if_neg hnot]

/-- The token a container has while its items are read. -/
def open_token (k : Container) (start parent : ℕ) : Token :=
  ⟨container_kind k, u16 start, 0, u16 parent, 0, false⟩

/-- The end of a container: its token is completed. -/
def close_container (k : Container) (start parent index : ℕ) (st : State) : State :=
  { st with
    tokens := st.tokens.set index
      ⟨container_kind k, u16 start, u16 st.position, u16 parent, u16 st.tokens.length, false⟩ }

/-- A container: its token is opened, its items are read if it has any, and the token is closed. -/
theorem value_container (hstart : whitespace b st.position = start) (hdepth : depth < max_depth)
    (hend : start ≠ b.length) (hroom : st.tokens.length ≠ max_tokens) (hk : byte_at b start = k.opening) :
    value b (fuel + 1) parent depth st =
      (if whitespace b (start + 1) < b.length ∧ byte_at b (whitespace b (start + 1)) = k.closing then
        some ⟨whitespace b (start + 1) + 1, st.tokens ++ [open_token k start parent]⟩
      else members b fuel st.tokens.length (k = .object) k.closing depth
        ⟨whitespace b (start + 1), st.tokens ++ [open_token k start parent]⟩).map
        (close_container k start parent st.tokens.length) := by
  subst hstart
  cases k with
  | array =>
    rw [value, if_neg (by omega), hk, if_neg (by decide), if_pos (by decide), if_neg (by omega)]
    rfl
  | object =>
    rw [value, if_neg (by omega), hk, if_neg (by decide), if_pos (by decide), if_neg (by omega)]
    rfl

theorem value_too_deep (hstart : whitespace b st.position = start)
    (hk : byte_at b start = k.opening) : value b (fuel + 1) parent max_depth st = none := by
  subst hstart
  by_cases hno : max_depth > max_depth ∨ whitespace b st.position = b.length ∨
      st.tokens.length = max_tokens
  · rw [value, if_pos hno]
  · rw [value, if_neg hno, hk]
    cases k <;> rfl

/-- A member name and its colon; nothing in an array. -/
def labelled (b : List Byte) (index : ℕ) : Container → State → Option State
  | .array, st => some st
  | .object, st =>
    match quoted b index true st with
    | none => none
    | some st =>
      if whitespace b st.position = b.length ∨ byte_at b (whitespace b st.position) ≠ 0x3a then none
      else some { st with position := whitespace b st.position + 1 }

/-- What follows an item: the end of the container, or a comma and the next one. -/
def after_item (b : List Byte) (fuel index : ℕ) (k : Container) (depth : ℕ) (st : State) :
    Option State :=
  if whitespace b st.position = b.length then none
  else if byte_at b (whitespace b st.position) = k.closing then
    some { st with position := whitespace b st.position + 1 }
  else if byte_at b (whitespace b st.position) ≠ 0x2c then none
  else members b fuel index (k = .object) k.closing depth
    { st with position := whitespace b (whitespace b st.position + 1) }

/-- One turn of the loop: the label, the value, then a comma or the end. -/
theorem members_eq (b : List Byte) (fuel index : ℕ) (k : Container) (depth : ℕ) (st : State) :
    members b (fuel + 1) index (k = .object) k.closing depth st =
      ((labelled b index k st).bind (value b fuel index (depth + 1))).bind
        (after_item b fuel index k depth) := by
  cases k with
  | array =>
    rw [members, labelled, Option.bind_some]
    dsimp only
    rw [if_neg (by decide)]
    dsimp only
    cases value b fuel index (depth + 1) st <;> rfl
  | object =>
    rw [members, labelled]
    dsimp only
    rw [if_pos (by decide)]
    cases quoted b index true st with
    | none => rfl
    | some st1 =>
      dsimp only
      split_ifs with hcolon
      · rfl
      · rw [Option.bind_some]
        dsimp only
        cases value b fuel index (depth + 1) { st1 with position := whitespace b st1.position + 1 }
          <;> rfl

end Firmingo.Json
