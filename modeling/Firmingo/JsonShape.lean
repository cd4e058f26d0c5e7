/-
JSON texts with holes.

A program that prints JSON with formats prints one shape of text for each format: a tree whose
names are fixed, with holes for the numbers, the words and the flags that are filled in. A
`Shape` is such a tree. `render` is its text with the holes in it, which is compared with the
format once and for all, by evaluation; `value` is the syntax tree it is when the holes are
filled. Its depth, its number of nodes and its names do not depend on what is filled in.
-/
import Firmingo.JsonGrammar

set_option autoImplicit false

open Octets JsonGrammar

namespace JsonShape

/-! ## Plain texts -/

/-- A byte that stands for itself in a string. -/
def Plain (b : Byte) : Prop := 0x20 ≤ b.toNat ∧ b.toNat < 0x80 ∧ b.toNat ≠ 0x22 ∧ b.toNat ≠ 0x5c

instance (b : Byte) : Decidable (Plain b) := inferInstanceAs (Decidable (_ ∧ _))

theorem char_toNat {n : ℕ} (h : n < 0x80) : (Char.ofNat n).toNat = n := by
  have hvalid : n.isValidChar := .inl (by omega)
  rw [Char.ofNat, dif_pos hvalid]
  rfl

/-- A plain byte as it is written; what is not plain is not written at all. -/
def character (b : Byte) : Character :=
  if h : Plain b then
    .plain (Char.ofNat b.toNat) (by rw [char_toNat h.2.1]; exact h.1)
      (by rw [char_toNat h.2.1]; exact h.2.2.1) (by rw [char_toNat h.2.1]; exact h.2.2.2)
  else .escape .slash

theorem encode_plain {b : Byte} (h : Plain b) : String.utf8EncodeChar (Char.ofNat b.toNat) = [b] := by
  have hval : (Char.ofNat b.toNat).val.toNat = b.toNat := char_toNat h.2.1
  have hone : (Char.ofNat b.toNat).utf8Size = 1 := by
    rw [Char.utf8Size_eq_one_iff, UInt32.le_iff_toNat_le, hval]
    have := h.2.1
    change b.toNat ≤ 127
    omega
  rw [String.utf8EncodeChar_eq_singleton hone]
  congr 1
  apply UInt8.toNat_inj.mp
  rw [UInt32.toNat_toUInt8, hval]
  exact Nat.mod_eq_of_lt b.toNat_lt

theorem character_source {b : Byte} (h : Plain b) : (character b).source = [b] := by
  rw [character, dif_pos h]
  exact encode_plain h

theorem character_char {b : Byte} (h : Plain b) : (character b).char = Char.ofNat b.toNat := by
  rw [character, dif_pos h]
  rfl

/-- A text of plain bytes. -/
def plain_text (l : List Byte) : Text := l.map character

theorem text_body {l : List Byte} (h : ∀ b ∈ l, Plain b) :
    (plain_text l).flatMap Character.source = l := by
  induction l with
  | nil => rfl
  | cons b l ih =>
    rw [List.forall_mem_cons] at h
    rw [plain_text, List.map_cons, List.flatMap_cons, character_source h.1, ← plain_text, ih h.2]
    rfl

theorem text_source {l : List Byte} (h : ∀ b ∈ l, Plain b) :
    (plain_text l).source = 0x22 :: (l ++ [0x22]) := by
  rw [Text.source, text_body h]

theorem text_decoded {l : List Byte} (h : ∀ b ∈ l, Plain b) : (plain_text l).decoded = l := by
  induction l with
  | nil => rfl
  | cons b l ih =>
    rw [List.forall_mem_cons] at h
    rw [plain_text, List.map_cons, Text.decoded_cons, character_char h.1, encode_plain h.1, ← plain_text,
      ih h.2]
    rfl

theorem text_chars {l : List Byte} (h : ∀ b ∈ l, Plain b) :
    ∀ c ∈ (plain_text l).chars, c.toNat ≠ 0 := by
  intro c hc
  obtain ⟨x, hx, rfl⟩ := List.mem_map.mp hc
  obtain ⟨b, hb, rfl⟩ := List.mem_map.mp hx
  rw [character_char (h b hb), char_toNat (h b hb).2.1]
  have := (h b hb).1
  omega

/-! ## Numbers -/

/-- The decimal digits of a number, the most significant one first. -/
def digit_list (n : ℕ) : List Digit :=
  if n < 10 then [Fin.ofNat 10 n] else digit_list (n / 10) ++ [Fin.ofNat 10 n]
termination_by n

theorem digit_char_byte {n : ℕ} (h : n < 10) :
    UInt8.ofNat (Nat.digitChar n).toNat = digit_byte (Fin.ofNat 10 n) := by
  interval_cases n <;> rfl

theorem digit_list_bytes (n : ℕ) : digit_bytes (digit_list n) = decimal n := by
  induction n using Nat.strong_induction_on with
  | _ n ih =>
    rw [digit_list, decimal, Nat.toDigits_eq_if (by decide)]
    split
    · next hlt =>
      rw [List.map_singleton, digit_char_byte hlt]
      rfl
    · next hge =>
      rw [digit_bytes, List.map_append, ← digit_bytes, ih (n / 10) (by omega), decimal, List.map_append,
        List.map_singleton, List.map_singleton, digit_char_byte (Nat.mod_lt n (by decide))]
      congr 3
      exact (Fin.ext (by simp)).symm

/-- Only zero begins with a zero. -/
theorem digit_list_head {n : ℕ} (hn : n ≠ 0) : ∃ d ds, digit_list n = d :: ds ∧ d ≠ 0 := by
  induction n using Nat.strong_induction_on with
  | _ n ih =>
    rw [digit_list]
    split
    · next hlt =>
      refine ⟨_, _, rfl, ?_⟩
      intro hzero
      have := congrArg Fin.val hzero
      simp only [Fin.val_ofNat, Fin.val_zero] at this
      omega
    · next hge =>
      obtain ⟨d, ds, heq, hd⟩ := ih (n / 10) (by omega) (by omega)
      exact ⟨d, ds ++ [Fin.ofNat 10 n], by rw [heq]; rfl, hd⟩

def whole (n : ℕ) : Whole :=
  match digit_list n with
  | [] => .zero
  | d :: ds => if h : d = 0 then .zero else .digits d ds h

theorem whole_source (n : ℕ) : (whole n).source = decimal n := by
  by_cases hn : n = 0
  · subst hn
    rw [whole, digit_list]
    rfl
  · obtain ⟨d, ds, heq, hd⟩ := digit_list_head hn
    rw [whole, heq]
    simp only [dif_neg hd, Whole.source]
    rw [← digit_list_bytes, heq]
    rfl

/-- A natural number, in decimal. -/
def natural (n : ℕ) : Number := ⟨false, whole n, none, none⟩

theorem natural_source (n : ℕ) : (natural n).source = decimal n := by
  rw [Number.source]
  change [] ++ ((whole n).source ++ ([] ++ [])) = decimal n
  rw [List.nil_append, List.append_nil, List.append_nil, whole_source]

/-! ## Shapes -/

mutual

/-- A text with holes. A `number`, a `word` and a `flag` are holes, with the number of what is
filled in. -/
inductive Shape
  | null
  | boolean (b : Bool)
  | constant (n : ℕ)
  | text (l : List Byte)
  | flag (i : ℕ)
  | number (i : ℕ)
  | word (i : ℕ)
  | array (l : Elements)
  | object (l : Members)

inductive Elements
  | nil
  | cons (v : Shape) (rest : Elements)

inductive Members
  | nil
  | cons (name : List Byte) (v : Shape) (rest : Members)

end

/-- What is filled in. -/
structure Filling where
  flag : ℕ → Bool
  number : ℕ → ℕ
  word : ℕ → List Byte

/-- A byte of a format, or a hole in it. -/
inductive Mark
  | byte (b : Byte)
  | flag (i : ℕ)
  | number (i : ℕ)
  | word (i : ℕ)
  deriving DecidableEq

def flag_text (b : Bool) : List Byte := if b then ascii "true" else ascii "false"

def Mark.fill (σ : Filling) : Mark → List Byte
  | .byte b => [b]
  | .flag i => flag_text (σ.flag i)
  | .number i => decimal (σ.number i)
  | .word i => σ.word i

/-- A format with its holes filled. -/
def fill (σ : Filling) (l : List Mark) : List Byte := l.flatMap (Mark.fill σ)

def bytes (l : List Byte) : List Mark := l.map .byte

section Fill

variable (σ : Filling)

@[simp] theorem fill_nil : fill σ [] = [] := rfl

@[simp] theorem fill_append (l m : List Mark) : fill σ (l ++ m) = fill σ l ++ fill σ m :=
  List.flatMap_append

@[simp] theorem fill_byte (b : Byte) (l : List Mark) : fill σ (.byte b :: l) = b :: fill σ l := rfl

@[simp] theorem fill_flag (i : ℕ) (l : List Mark) :
    fill σ (.flag i :: l) = flag_text (σ.flag i) ++ fill σ l := rfl

@[simp] theorem fill_number (i : ℕ) (l : List Mark) :
    fill σ (.number i :: l) = decimal (σ.number i) ++ fill σ l := rfl

@[simp] theorem fill_word (i : ℕ) (l : List Mark) : fill σ (.word i :: l) = σ.word i ++ fill σ l := rfl

@[simp] theorem fill_bytes (l : List Byte) : fill σ (bytes l) = l := by
  induction l with
  | nil => rfl
  | cons b l ih => exact congrArg (b :: ·) ih

end Fill

mutual

/-- The text of a shape, with its holes. -/
def Shape.render : Shape → List Mark
  | .null => bytes (ascii "null")
  | .boolean b => bytes (flag_text b)
  | .constant n => bytes (decimal n)
  | .text l => bytes (0x22 :: (l ++ [0x22]))
  | .flag i => [.flag i]
  | .number i => [.number i]
  | .word i => [.byte 0x22, .word i, .byte 0x22]
  | .array l => .byte 0x5b :: (l.render ++ [.byte 0x5d])
  | .object l => .byte 0x7b :: (l.render ++ [.byte 0x7d])

def Elements.render : Elements → List Mark
  | .nil => []
  | .cons v .nil => v.render
  | .cons v rest => v.render ++ .byte 0x2c :: rest.render

def Members.render : Members → List Mark
  | .nil => []
  | .cons name v .nil => bytes (0x22 :: (name ++ [0x22, 0x3a])) ++ v.render
  | .cons name v rest => bytes (0x22 :: (name ++ [0x22, 0x3a])) ++ (v.render ++ .byte 0x2c :: rest.render)

end

theorem Elements.render_more (v w : Shape) (rest : Elements) :
    (Elements.cons v (.cons w rest)).render = v.render ++ .byte 0x2c :: (Elements.cons w rest).render :=
  Elements.render.eq_3 v (.cons w rest) Elements.noConfusion

theorem Members.render_more (name next : List Byte) (v w : Shape) (rest : Members) :
    (Members.cons name v (.cons next w rest)).render =
      bytes (0x22 :: (name ++ [0x22, 0x3a])) ++
        (v.render ++ .byte 0x2c :: (Members.cons next w rest).render) :=
  Members.render.eq_3 name v (.cons next w rest) Members.noConfusion

mutual

/-- The tree a shape is, once it is filled. -/
def Shape.value (σ : Filling) : Shape → Value
  | .null => .null
  | .boolean b => .boolean b
  | .constant n => .number (natural n)
  | .text l => .string (plain_text l)
  | .flag i => .boolean (σ.flag i)
  | .number i => .number (natural (σ.number i))
  | .word i => .string (plain_text (σ.word i))
  | .array .nil => .empty .array []
  | .array (.cons v rest) => .full .array [] (Elements.items σ (v.value σ) rest)
  | .object .nil => .empty .object []
  | .object (.cons name v rest) =>
    .full .object [] (Members.items σ (.name (plain_text name) [] []) (v.value σ) rest)

/-- The items that begin with a value. -/
def Elements.items (σ : Filling) (first : Value) : Elements → Items .array
  | .nil => .last .element first []
  | .cons v rest => .more .element first [] [] (Elements.items σ (v.value σ) rest)

def Members.items (σ : Filling) (label : Label .object) (first : Value) : Members → Items .object
  | .nil => .last label first []
  | .cons name v rest =>
    .more label first [] [] (Members.items σ (.name (plain_text name) [] []) (v.value σ) rest)

end

/-! ## What does not depend on the filling -/

mutual

/-- The strings of a shape: fixed ones, and holes. -/
def Shape.spelled : Shape → List (List Byte ⊕ ℕ)
  | .text l => [.inl l]
  | .word i => [.inr i]
  | .array l => l.spelled
  | .object l => l.spelled
  | _ => []

def Elements.spelled : Elements → List (List Byte ⊕ ℕ)
  | .nil => []
  | .cons v rest => v.spelled ++ rest.spelled

def Members.spelled : Members → List (List Byte ⊕ ℕ)
  | .nil => []
  | .cons name v rest => .inl name :: (v.spelled ++ rest.spelled)

end

mutual

def Shape.count : Shape → ℕ
  | .array l => 1 + l.count
  | .object l => 1 + l.count
  | _ => 1

def Elements.count : Elements → ℕ
  | .nil => 0
  | .cons v rest => v.count + rest.count

def Members.count : Members → ℕ
  | .nil => 0
  | .cons _ v rest => 1 + (v.count + rest.count)

end

mutual

def Shape.depth : Shape → ℕ
  | .array l => 1 + l.depth
  | .object l => 1 + l.depth
  | _ => 0

def Elements.depth : Elements → ℕ
  | .nil => 0
  | .cons v rest => max v.depth rest.depth

def Members.depth : Members → ℕ
  | .nil => 0
  | .cons _ v rest => max v.depth rest.depth

end

def Members.names : Members → List (List Byte)
  | .nil => []
  | .cons name _ rest => name :: rest.names

mutual

def Shape.distinct : Shape → Bool
  | .array l => l.distinct
  | .object l => decide l.names.Nodup && l.distinct
  | _ => true

def Elements.distinct : Elements → Bool
  | .nil => true
  | .cons v rest => v.distinct && rest.distinct

def Members.distinct : Members → Bool
  | .nil => true
  | .cons _ v rest => v.distinct && rest.distinct

end

/-- A string of a filled shape. -/
def spell (σ : Filling) (x : List Byte ⊕ ℕ) : List Byte := x.elim id σ.word

/-- Every string of a filled shape is plain. -/
def Spellable (σ : Filling) (l : List (List Byte ⊕ ℕ)) : Prop := ∀ x ∈ l, ∀ b ∈ spell σ x, Plain b

variable {σ : Filling}

theorem spellable_append {l m : List (List Byte ⊕ ℕ)} :
    Spellable σ (l ++ m) ↔ Spellable σ l ∧ Spellable σ m := by
  simp only [Spellable, List.mem_append, or_imp, forall_and]

theorem spellable_cons {x : List Byte ⊕ ℕ} {l : List (List Byte ⊕ ℕ)} :
    Spellable σ (x :: l) ↔ (∀ b ∈ spell σ x, Plain b) ∧ Spellable σ l := by
  simp only [Spellable, List.forall_mem_cons]

theorem flag_source (b : Bool) : (Value.boolean b).source = flag_text b := by
  rw [Value.source]
  rfl

theorem name_source {name : List Byte} (h : ∀ b ∈ name, Plain b) :
    (Label.name (plain_text name) [] []).source = 0x22 :: (name ++ [0x22, 0x3a]) := by
  rw [Label.source, text_source h]
  simp

/-- What a filled shape is: its text is the format, filled, and the rest depends on the shape
alone. -/
structure Fills (σ : Filling) (s : Shape) (v : Value) : Prop where
  source : Spellable σ s.spelled → v.source = fill σ s.render
  texts : v.texts = s.spelled.map fun x => plain_text (spell σ x)
  count : v.count = s.count
  depth : v.depth = s.depth
  distinct : Spellable σ s.spelled → s.distinct = true → v.Distinct

structure FillsElements (σ : Filling) (l : Elements) (items : Items .array) : Prop where
  source : Spellable σ l.spelled → items.source = fill σ l.render
  texts : items.texts = l.spelled.map fun x => plain_text (spell σ x)
  names : items.names = []
  count : items.count = l.count
  depth : items.depth = l.depth
  distinct : Spellable σ l.spelled → l.distinct = true → items.Distinct

structure FillsMembers (σ : Filling) (l : Members) (items : Items .object) : Prop where
  source : Spellable σ l.spelled → items.source = fill σ l.render
  texts : items.texts = l.spelled.map fun x => plain_text (spell σ x)
  names : items.names = l.names.map plain_text
  count : items.count = l.count
  depth : items.depth = l.depth
  distinct : Spellable σ l.spelled → l.distinct = true → items.Distinct

theorem fills_array {l : Elements} {items : Items .array} (h : FillsElements σ l items) :
    Fills σ (.array l) (.full .array [] items) where
  source hs := by
    rw [Shape.spelled] at hs
    rw [Value.source, h.source hs, Shape.render]
    simp [Container.opening, Container.closing]
  texts := by rw [Value.texts, h.texts, Shape.spelled]
  count := by rw [Value.count, h.count, Shape.count]
  depth := by rw [Value.depth, h.depth, Shape.depth]
  distinct hs hd := by
    rw [Shape.spelled] at hs
    rw [Shape.distinct] at hd
    rw [Value.Distinct, h.names]
    exact ⟨List.nodup_nil, h.distinct hs hd⟩

/-- The names of members are among the strings. -/
theorem names_plain : ∀ {l : Members}, Spellable σ l.spelled → ∀ name ∈ l.names, ∀ b ∈ name, Plain b
  | .nil, _, name, hname => by cases hname
  | .cons first v rest, hs, name, hname => by
      rw [Members.spelled, spellable_cons, spellable_append] at hs
      rcases List.mem_cons.mp hname with rfl | hname
      · exact hs.1
      · exact names_plain hs.2.2 name hname

theorem names_decoded {l : List (List Byte)} (h : ∀ name ∈ l, ∀ b ∈ name, Plain b) :
    (l.map plain_text).map Text.decoded = l := by
  rw [List.map_map]
  conv_rhs => rw [← List.map_id l]
  exact List.map_congr_left fun name hname => text_decoded (h name hname)

theorem fills_object {l : Members} {items : Items .object} (h : FillsMembers σ l items) :
    Fills σ (.object l) (.full .object [] items) where
  source hs := by
    rw [Shape.spelled] at hs
    rw [Value.source, h.source hs, Shape.render]
    simp [Container.opening, Container.closing]
  texts := by rw [Value.texts, h.texts, Shape.spelled]
  count := by rw [Value.count, h.count, Shape.count]
  depth := by rw [Value.depth, h.depth, Shape.depth]
  distinct hs hd := by
    rw [Shape.spelled] at hs
    rw [Shape.distinct, Bool.and_eq_true, decide_eq_true_eq] at hd
    rw [Value.Distinct, h.names, names_decoded (names_plain hs)]
    exact ⟨hd.1, h.distinct hs hd.2⟩

theorem fills_string {s : Shape} {x : List Byte ⊕ ℕ} (hspelled : s.spelled = [x]) (hcount : s.count = 1)
    (hdepth : s.depth = 0) (hrender : fill σ s.render = 0x22 :: (spell σ x ++ [0x22])) :
    Fills σ s (.string (plain_text (spell σ x))) where
  source hs := by
    rw [hspelled, spellable_cons] at hs
    rw [Value.source, text_source hs.1, hrender]
  texts := by rw [Value.texts, hspelled, List.map_singleton]
  count := by rw [Value.count, hcount]
  depth := by rw [Value.depth, hdepth]
  distinct _ _ := by rw [Value.Distinct]; trivial

/-- A value of one token that is no string. -/
theorem fills_scalar {s : Shape} {v : Value} (hspelled : s.spelled = []) (hcount : s.count = 1)
    (hdepth : v.depth = s.depth) (hv : v.texts = [] ∧ v.count = 1 ∧ v.Distinct)
    (hrender : v.source = fill σ s.render) : Fills σ s v where
  source _ := hrender
  texts := by rw [hv.1, hspelled, List.map_nil]
  count := by rw [hv.2.1, hcount]
  depth := hdepth
  distinct _ _ := hv.2.2

/-- The last element of an array, filled. -/
theorem fills_last_element {v : Shape} {w : Value} (h : Fills σ v w) :
    FillsElements σ (.cons v .nil) (.last .element w []) where
  source hs := by
    rw [Elements.spelled, Elements.spelled, List.append_nil] at hs
    rw [Items.source, h.source hs, Elements.render]
    simp [Label.source]
  texts := by
    rw [Items.texts, h.texts, Elements.spelled, Elements.spelled, List.append_nil]
    rfl
  names := by rw [Items.names]; rfl
  count := by
    rw [Items.count, h.count, Elements.count, Elements.count]
    simp [Label.names]
  depth := by rw [Items.depth, h.depth, Elements.depth, Elements.depth, Nat.max_zero]
  distinct hs hd := by
    rw [Elements.spelled, Elements.spelled, List.append_nil] at hs
    rw [Elements.distinct, Bool.and_eq_true] at hd
    rw [Items.Distinct]
    exact h.distinct hs hd.1

theorem fills_more_elements {v w : Shape} {rest : Elements} {x : Value} {items : Items .array}
    (h : Fills σ v x) (hrest : FillsElements σ (.cons w rest) items) :
    FillsElements σ (.cons v (.cons w rest)) (.more .element x [] [] items) where
  source hs := by
    rw [Elements.spelled, spellable_append] at hs
    rw [Items.source, h.source hs.1, hrest.source hs.2, Elements.render_more]
    simp [Label.source]
  texts := by
    rw [Items.texts, h.texts, hrest.texts]
    conv_rhs => rw [Elements.spelled, List.map_append]
    rfl
  names := by
    rw [Items.names, hrest.names]
    rfl
  count := by
    rw [Items.count, h.count, hrest.count]
    conv_rhs => rw [Elements.count]
    simp [Label.names]
  depth := by
    rw [Items.depth, h.depth, hrest.depth]
    conv_rhs => rw [Elements.depth]
  distinct hs hd := by
    rw [Elements.spelled, spellable_append] at hs
    rw [Elements.distinct, Bool.and_eq_true] at hd
    rw [Items.Distinct]
    exact ⟨h.distinct hs.1 hd.1, hrest.distinct hs.2 hd.2⟩

theorem fills_last_member {name : List Byte} {v : Shape} {w : Value} (h : Fills σ v w) :
    FillsMembers σ (.cons name v .nil) (.last (.name (plain_text name) [] []) w []) where
  source hs := by
    rw [Members.spelled, Members.spelled, List.append_nil, spellable_cons] at hs
    have hname : ∀ b ∈ name, Plain b := hs.1
    rw [Items.source, name_source hname, h.source hs.2, Members.render]
    simp
  texts := by
    rw [Items.texts, h.texts, Members.spelled, Members.spelled, List.append_nil]
    rfl
  names := by rw [Items.names]; rfl
  count := by
    rw [Items.count, h.count, Members.count, Members.count]
    simp [Label.names]
  depth := by rw [Items.depth, h.depth, Members.depth, Members.depth, Nat.max_zero]
  distinct hs hd := by
    rw [Members.spelled, Members.spelled, List.append_nil, spellable_cons] at hs
    rw [Members.distinct, Bool.and_eq_true] at hd
    rw [Items.Distinct]
    exact h.distinct hs.2 hd.1

/-- A member with another one after it, filled. -/
theorem fills_more_members {name next : List Byte} {v w : Shape} {rest : Members} {x : Value}
    {items : Items .object} (h : Fills σ v x) (hrest : FillsMembers σ (.cons next w rest) items) :
    FillsMembers σ (.cons name v (.cons next w rest))
      (.more (.name (plain_text name) [] []) x [] [] items) where
  source hs := by
    rw [Members.spelled, spellable_cons, spellable_append] at hs
    have hname : ∀ b ∈ name, Plain b := hs.1
    rw [Items.source, name_source hname, h.source hs.2.1, hrest.source hs.2.2, Members.render_more]
    simp
  texts := by
    rw [Items.texts, h.texts, hrest.texts]
    conv_rhs => rw [Members.spelled, List.map_cons, List.map_append]
    rfl
  names := by
    rw [Items.names, hrest.names]
    rfl
  count := by
    rw [Items.count, h.count, hrest.count]
    conv_rhs => rw [Members.count]
    simp [Label.names]
  depth := by
    rw [Items.depth, h.depth, hrest.depth]
    conv_rhs => rw [Members.depth]
  distinct hs hd := by
    rw [Members.spelled, spellable_cons, spellable_append] at hs
    rw [Members.distinct, Bool.and_eq_true] at hd
    rw [Items.Distinct]
    exact ⟨h.distinct hs.2.1 hd.1, hrest.distinct hs.2.2 hd.2⟩

mutual

/-- **A shape, once it is filled, is its tree.** -/
theorem Shape.fills (σ : Filling) : ∀ s : Shape, Fills σ s (s.value σ)
  | .null => fills_scalar rfl rfl rfl ⟨rfl, rfl, trivial⟩ (by simp [Shape.value, Value.source, Shape.render])
  | .boolean b => by
      refine fills_scalar rfl rfl rfl ⟨rfl, rfl, trivial⟩ ?_
      rw [Shape.value, flag_source, Shape.render, fill_bytes]
  | .constant n => by
      refine fills_scalar rfl rfl rfl ⟨rfl, rfl, trivial⟩ ?_
      rw [Shape.value, Value.source, natural_source, Shape.render, fill_bytes]
  | .text l => by
      refine fills_string (s := .text l) (x := .inl l) rfl rfl rfl ?_
      rw [Shape.render, fill_bytes]
      rfl
  | .flag i => by
      refine fills_scalar rfl rfl rfl ⟨rfl, rfl, trivial⟩ ?_
      rw [Shape.value, flag_source, Shape.render, fill_flag, fill_nil, List.append_nil]
  | .number i => by
      refine fills_scalar rfl rfl rfl ⟨rfl, rfl, trivial⟩ ?_
      rw [Shape.value, Value.source, natural_source, Shape.render, fill_number, fill_nil, List.append_nil]
  | .word i => by
      refine fills_string (s := .word i) (x := .inr i) rfl rfl rfl ?_
      rw [Shape.render, fill_byte, fill_word, fill_byte, fill_nil]
      rfl
  | .array .nil => fills_scalar rfl rfl rfl ⟨rfl, rfl, trivial⟩ rfl
  | .array (.cons v rest) => by
      rw [Shape.value]
      exact fills_array (Elements.fills σ rest v (Shape.fills σ v))
  | .object .nil => fills_scalar rfl rfl rfl ⟨rfl, rfl, trivial⟩ rfl
  | .object (.cons name v rest) => by
      rw [Shape.value]
      exact fills_object (Members.fills σ rest name v (Shape.fills σ v))

theorem Elements.fills (σ : Filling) : ∀ (rest : Elements) (v : Shape), Fills σ v (v.value σ) →
    FillsElements σ (.cons v rest) (Elements.items σ (v.value σ) rest)
  | .nil, v, h => by
      rw [Elements.items]
      exact fills_last_element h
  | .cons w rest, v, h => by
      rw [Elements.items]
      exact fills_more_elements h (Elements.fills σ rest w (Shape.fills σ w))

theorem Members.fills (σ : Filling) : ∀ (rest : Members) (name : List Byte) (v : Shape),
    Fills σ v (v.value σ) →
    FillsMembers σ (.cons name v rest) (Members.items σ (.name (plain_text name) [] []) (v.value σ) rest)
  | .nil, name, v, h => by
      rw [Members.items]
      exact fills_last_member h
  | .cons next w rest, name, v, h => by
      rw [Members.items]
      exact fills_more_members h (Members.fills σ rest next w (Shape.fills σ w))

end

end JsonShape
