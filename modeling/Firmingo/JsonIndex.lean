/-
A parsed document as an index of its value: the readers of `src/core/json.cpp` and the
`child` of `src/core/session.cpp`.

The table of a document is the listing of a tree (`JsonParse`). Here every reader is
said in terms of the tree: which node a token is, what a string decodes to, what a
number is worth, and which member a name finds. A search for a name looks at the whole
table behind an object, past the members of inner objects and on into whatever follows
the object, so what it finds rests on the parents in the listing (`search_value`).
-/
import Firmingo.JsonParse
import Firmingo.Request

set_option autoImplicit false

open Octets JsonGrammar

namespace Firmingo.Json

variable {b : List Byte} {k : Container}

/-! ## Nodes and tokens -/

/-- The text of a node. -/
def node_source : Node → List Byte
  | .name s => s.source
  | .value v => v.source

def node_kind : Node → Kind
  | .name _ => .string
  | .value v => kind_of v

/-- The string a node is, if it is one. -/
def node_text : Node → Option Text
  | .name s => some s
  | .value (.string s) => some s
  | .value _ => none

def is_name : Node → Bool
  | .name _ => true
  | .value _ => false

/-- A token belongs to a node of the text. -/
structure TokenOf (b : List Byte) (t : Token) (n : Node) : Prop where
  kind : t.kind = node_kind n
  key : t.key = is_name n
  stop : t.stop = t.start + (node_source n).length
  spans : Spans b t.start (node_source n)

theorem tokenOf_text {p parent index : ℕ} {s : Text} (h : Spans b p s.source) :
    TokenOf b (text_token p parent index true s) (.name s) := ⟨rfl, rfl, rfl, h⟩

theorem tokenOf_head {p parent index : ℕ} {v : Value} (h : Spans b p v.source) :
    TokenOf b (head_token p parent index v) (.value v) := ⟨rfl, rfl, rfl, h⟩

theorem label_tokens_nodes {p parent index : ℕ} {label : Label k} (h : Spans b p label.source) :
    List.Forall₂ (TokenOf b) (label_tokens p parent index label) (label.names.map Node.name) := by
  cases label with
  | element => exact List.Forall₂.nil
  | name s before after => exact List.Forall₂.cons (tokenOf_text (label_spans_text h)) .nil

mutual

/-- The listing of a value names its nodes one by one. -/
theorem value_tokens_nodes : ∀ (v : Value) {p parent index : ℕ}, Spans b p v.source →
    List.Forall₂ (TokenOf b) (value_tokens p parent index v) v.nodes
  | .null, _, _, _, h | .boolean _, _, _, _, h | .number _, _, _, _, h | .string _, _, _, _, h
  | .empty _ _, _, _, _, h => by
      rw [value_tokens, Value.nodes]
      exact List.Forall₂.cons (tokenOf_head h) .nil
  | .full k before items, p, parent, index, h => by
      rw [value_tokens, Value.nodes]
      refine List.Forall₂.cons (tokenOf_head h) (items_tokens_nodes items ?_)
      rw [Value.source, spans_cons, spans_append, spans_append, blank_length] at h
      exact h.2.2.1

/-- The items of a container, one after the other. -/
theorem items_tokens_nodes {k : Container} : ∀ (items : Items k) {p parent index : ℕ},
    Spans b p items.source →
    List.Forall₂ (TokenOf b) (items_tokens p parent index items) items.nodes
  | .last label value after, p, parent, index, h => by
      rw [Items.source, spans_append, spans_append] at h
      rw [items_tokens, Items.nodes]
      exact List.rel_append (label_tokens_nodes h.1) (value_tokens_nodes value h.2.1)
  | .more label value after before rest, p, parent, index, h => by
      rw [Items.source, spans_append, spans_append, spans_append, spans_cons, spans_append] at h
      simp only [blank_length] at h
      rw [items_tokens, Items.nodes]
      exact List.rel_append (label_tokens_nodes h.1)
        (List.rel_append (value_tokens_nodes value h.2.1) (items_tokens_nodes rest h.2.2.2.2.2))

end

/-! ## Members -/

/-- The members of a container whose items begin at token `index`: the name, the token
of the value, and the value. An array has none. -/
def items_members {k : Container} (index : ℕ) : Items k → List (Text × ℕ × Value)
  | .last label value _ => label.names.map fun s => (s, index + 1, value)
  | .more label value _ _ rest =>
    (label.names.map fun s => (s, index + 1, value)) ++
      items_members (index + label.names.length + value.count) rest

/-- The members of the value at token `index`. -/
def members_of (index : ℕ) : Value → List (Text × ℕ × Value)
  | .full _ _ items => items_members (index + 1) items
  | _ => []

/-- The search of `Document::find` and `child` over the tokens from index `i` on. -/
def search (b : List Byte) (parent : ℕ) (key : List Byte) : ℕ → List Token → Option ℕ
  | _, [] => none
  | i, t :: tokens =>
    if t.parent = parent ∧ t.key = true ∧ read b 65 t = some key then some (i + 1)
    else search b parent key (i + 1) tokens

theorem search_append (b : List Byte) (parent : ℕ) (key : List Byte) (i : ℕ) (l m : List Token) :
    search b parent key i (l ++ m) =
      (search b parent key i l).or (search b parent key (i + l.length) m) := by
  induction l generalizing i with
  | nil => rfl
  | cons t l ih =>
    rw [List.cons_append, search, search]
    split_ifs
    · rfl
    · rw [ih, List.length_cons, Nat.add_assoc, Nat.add_comm 1]

theorem search_eq_none {parent i : ℕ} {key : List Byte} {tokens : List Token}
    (h : ∀ t ∈ tokens, t.key = true → t.parent ≠ parent) : search b parent key i tokens = none := by
  induction tokens generalizing i with
  | nil => rfl
  | cons t tokens ih =>
    obtain ⟨ht, hrest⟩ := List.forall_mem_cons.mp h
    rw [search, if_neg (fun hfound => ht hfound.2.1 hfound.1), ih hrest]

/-- The member a search finds among the items of its own container. -/
theorem search_label {p parent index : ℕ} {key : List Byte} {label : Label k}
    (h : Spans b p label.source) (hs : ∀ s ∈ label.names, Admitted s) (v : Value) :
    search b parent key index (label_tokens p parent index label) =
      ((label.names.map fun s => (s, index + 1, v)).find? fun m => m.1.decoded = key).map
        fun m => m.2.1 := by
  cases label with
  | element => rfl
  | name s before after =>
    have hread := @read_name b s p parent index true (label_spans_text h)
      (hs s List.mem_cons_self)
    simp only [label_tokens, Label.names, List.map_cons, List.map_nil, search, hread,
      Option.some.injEq, List.find?_cons, List.find?_nil]
    by_cases hkey : s.decoded = key
    · rw [if_pos ⟨rfl, rfl, hkey⟩, decide_eq_true hkey]
      rfl
    · rw [if_neg (fun hfound => hkey hfound.2.2), decide_eq_false hkey]
      rfl

/-- The first member of a name, if the container has one. -/
def find_member (key : List Byte) (members : List (Text × ℕ × Value)) : Option ℕ :=
  (members.find? fun m => m.1.decoded = key).map fun m => m.2.1

theorem find_member_append (key : List Byte) (l m : List (Text × ℕ × Value)) :
    find_member key (l ++ m) = (find_member key l).or (find_member key m) := by
  rw [find_member, List.find?_append, find_member, find_member]
  cases l.find? fun m => m.1.decoded = key <;> rfl

/-- Among the items of a container, a search for its members finds them. -/
theorem search_items {key : List Byte} : ∀ (items : Items k) {p parent index : ℕ},
    parent < index → Spans b p items.source → (∀ s ∈ items.texts, Admitted s) →
    search b parent key index (items_tokens p parent index items) =
      find_member key (items_members index items)
  | .last label value after, p, parent, index, hlt, h, hs => by
      rw [Items.source, spans_append, spans_append] at h
      rw [Items.texts] at hs
      rw [items_tokens, search_append, items_members,
        search_label h.1 (fun s hmem => hs s (List.mem_append_left _ hmem)) value,
        search_eq_none (fun t ht hkey => ?_), Option.or_none]
      · rfl
      · have hrange := value_tokens_keys _ _ _ value t ht hkey
        omega
  | .more label value after before rest, p, parent, index, hlt, h, hs => by
      rw [Items.source, spans_append, spans_append, spans_append, spans_cons, spans_append] at h
      simp only [blank_length] at h
      rw [Items.texts] at hs
      have hrest := @search_items key rest _ parent (index + label.names.length + value.count)
        (by omega) h.2.2.2.2.2
        (fun s hmem => hs s (List.mem_append_right _ (List.mem_append_right _ hmem)))
      have hvalue : search b parent key (index + (label_tokens p parent index label).length)
          (value_tokens (p + label.source.length) parent (index + label.names.length) value)
          = none := by
        refine search_eq_none fun t ht hkey => ?_
        have hrange := value_tokens_keys _ _ _ value t ht hkey
        omega
      rw [items_tokens, search_append, search_append, items_members, find_member_append,
        search_label h.1 (fun s hmem => hs s (List.mem_append_left _ hmem)) value,
        hvalue, Option.none_or, label_tokens_length, value_tokens_length, hrest]
      rfl

/-- A value among the nodes of an item comes behind its name. -/
theorem value_of_label_append {label : Label k} {nodes : List Node} {j : ℕ} {u : Value}
    (h : (label.names.map Node.name ++ nodes)[j]? = some (.value u)) :
    label.names.length ≤ j ∧ nodes[j - label.names.length]? = some (.value u) := by
  by_cases hj : j < label.names.length
  · rw [List.getElem?_append_left (by rwa [List.length_map]), List.getElem?_map] at h
    obtain ⟨s, -, hs⟩ := Option.map_eq_some_iff.mp h
    cases hs
  · rw [List.getElem?_append_right (by rw [List.length_map]; omega), List.length_map] at h
    exact ⟨by omega, h⟩

theorem search_label_none {p parent index within i : ℕ} {key : List Byte} (label : Label k)
    (h : parent ≠ within) : search b within key i (label_tokens p parent index label) = none := by
  refine search_eq_none fun t ht _ => ?_
  obtain ⟨s, -, rfl⟩ := List.mem_map.mp ht
  exact h

mutual

/-- **A search for the members of any value of a tree finds the members of that value.** -/
theorem search_value {key : List Byte} : ∀ (v : Value) {p parent index j : ℕ} {u : Value},
    v.nodes[j]? = some (.value u) → Spans b p v.source → (∀ s ∈ v.texts, Admitted s) →
    search b (index + j) key index (value_tokens p parent index v) =
      find_member key (members_of (index + j) u)
  | .null, p, parent, index, j, u, hu, h, hs | .boolean _, p, parent, index, j, u, hu, h, hs
  | .number _, p, parent, index, j, u, hu, h, hs | .string _, p, parent, index, j, u, hu, h, hs
  | .empty _ _, p, parent, index, j, u, hu, h, hs => by
      rw [Value.nodes, List.getElem?_singleton] at hu
      split_ifs at hu
      cases hu
      rw [value_tokens]
      exact search_eq_none fun t ht hkey => by
        rw [List.mem_singleton] at ht
        subst ht
        cases hkey
  | .full k before items, p, parent, index, j, u, hu, h, hs => by
      rw [Value.source, spans_cons, spans_append, spans_append, blank_length] at h
      rw [Value.texts] at hs
      rw [Value.nodes] at hu
      rw [value_tokens, search, if_neg (fun hfound => by cases hfound.2.1)]
      cases j with
      | zero =>
        rw [List.getElem?_cons_zero] at hu
        cases hu
        exact search_items items (Nat.lt_succ_self _) h.2.2.1 hs
      | succ j =>
        rw [List.getElem?_cons_succ] at hu
        rw [Nat.add_comm j, ← Nat.add_assoc]
        exact search_items_inner items hu (Nat.lt_succ_self _) h.2.2.1 hs

/-- A search for a member of an inner value finds it in the listing of the items. -/
theorem search_items_inner {k : Container} {key : List Byte} : ∀ (items : Items k)
    {p parent index j : ℕ} {u : Value}, items.nodes[j]? = some (.value u) → parent < index →
    Spans b p items.source → (∀ s ∈ items.texts, Admitted s) →
    search b (index + j) key index (items_tokens p parent index items) =
      find_member key (members_of (index + j) u)
  | .last label value after, p, parent, index, j, u, hu, hlt, h, hs => by
      rw [Items.source, spans_append, spans_append] at h
      rw [Items.texts] at hs
      rw [Items.nodes] at hu
      obtain ⟨hj, hu⟩ := value_of_label_append hu
      have hvalue := @search_value key value (p + label.source.length) parent
        (index + label.names.length) (j - label.names.length) u hu h.2.1
        (fun s hmem => hs s (List.mem_append_right _ hmem))
      rw [show index + label.names.length + (j - label.names.length) = index + j by omega] at hvalue
      rw [items_tokens, search_append, search_label_none label (by omega), Option.none_or,
        label_tokens_length, hvalue]
  | .more label value after before rest, p, parent, index, j, u, hu, hlt, h, hs => by
      rw [Items.source, spans_append, spans_append, spans_append, spans_cons, spans_append] at h
      simp only [blank_length] at h
      rw [Items.texts] at hs
      rw [Items.nodes] at hu
      obtain ⟨hj, hu⟩ := value_of_label_append hu
      rw [items_tokens, search_append, search_append, search_label_none label (by omega),
        Option.none_or, label_tokens_length, value_tokens_length]
      by_cases hinside : j - label.names.length < value.count
      · -- the value of this item: the rest has other parents
        rw [List.getElem?_append_left (by rwa [Value.nodes_length])] at hu
        have hvalue := @search_value key value (p + label.source.length) parent
          (index + label.names.length) (j - label.names.length) u hu h.2.1
          (fun s hmem => hs s (List.mem_append_right _ (List.mem_append_left _ hmem)))
        rw [show index + label.names.length + (j - label.names.length) = index + j by omega]
          at hvalue
        rw [hvalue, search_eq_none (fun t ht hkey => ?_), Option.or_none]
        rcases items_tokens_keys _ _ _ rest t ht hkey with hrange | hrange
        · omega
        · omega
      · rw [List.getElem?_append_right (by rw [Value.nodes_length]; omega),
          Value.nodes_length] at hu
        have hrest := @search_items_inner k key rest
          (p + label.source.length + value.source.length + after.length + 1 + before.length) parent
          (index + label.names.length + value.count) (j - label.names.length - value.count) u hu
          (by omega) h.2.2.2.2.2
          (fun s hmem => hs s (List.mem_append_right _ (List.mem_append_right _ hmem)))
        rw [show index + label.names.length + value.count + (j - label.names.length - value.count)
          = index + j by omega] at hrest
        have hnone : search b (index + j) key (index + label.names.length)
            (value_tokens (p + label.source.length) parent (index + label.names.length) value)
            = none := by
          refine search_eq_none fun t ht hkey => ?_
          have hrange := value_tokens_keys _ _ _ value t ht hkey
          omega
        rw [hnone, Option.none_or, hrest]

end

mutual

/-- The object of a member name comes before the name. -/
theorem value_keys_before : ∀ (v : Value) {p parent index i : ℕ} {t : Token},
    (value_tokens p parent index v)[i]? = some t → t.key = true → t.parent < index + i
  | .null, p, parent, index, i, t, ht, hkey | .boolean _, p, parent, index, i, t, ht, hkey
  | .number _, p, parent, index, i, t, ht, hkey | .string _, p, parent, index, i, t, ht, hkey
  | .empty _ _, p, parent, index, i, t, ht, hkey => by
      rw [value_tokens, List.getElem?_singleton] at ht
      split_ifs at ht
      cases ht
      cases hkey
  | .full k before items, p, parent, index, i, t, ht, hkey => by
      rw [value_tokens] at ht
      cases i with
      | zero =>
        rw [List.getElem?_cons_zero] at ht
        cases ht
        cases hkey
      | succ i =>
        rw [List.getElem?_cons_succ] at ht
        have hlt := items_keys_before items (Nat.lt_succ_self _) ht hkey
        omega

theorem items_keys_before {k : Container} : ∀ (items : Items k) {p parent index i : ℕ} {t : Token},
    parent < index → (items_tokens p parent index items)[i]? = some t → t.key = true →
    t.parent < index + i
  | .last label value after, p, parent, index, i, t, hlt, ht, hkey => by
      rw [items_tokens, List.getElem?_append] at ht
      split_ifs at ht with hi
      · obtain ⟨s, -, rfl⟩ := List.mem_map.mp (List.mem_of_getElem? ht)
        exact Nat.lt_add_right _ hlt
      · rw [label_tokens_length] at hi ht
        have hvalue := value_keys_before value ht hkey
        omega
  | .more label value after before rest, p, parent, index, i, t, hlt, ht, hkey => by
      rw [items_tokens, List.getElem?_append] at ht
      split_ifs at ht with hi
      · obtain ⟨s, -, rfl⟩ := List.mem_map.mp (List.mem_of_getElem? ht)
        exact Nat.lt_add_right _ hlt
      · rw [label_tokens_length] at hi ht
        rw [List.getElem?_append] at ht
        split_ifs at ht with hj
        · have hvalue := value_keys_before value ht hkey
          omega
        · rw [value_tokens_length] at hj ht
          have hrest := items_keys_before rest (by omega) ht hkey
          omega

end

/-- The loop over the indices from `i` on is the search of the tokens from `i` on. -/
theorem findSome_range_eq_search (d : Document) (parent : ℕ) (key : List Byte) (n i : ℕ)
    (hn : i + n = d.count) :
    ((List.range' i n).findSome? fun i =>
        if (d.token i).parent = parent ∧ (d.token i).key ∧ d.string i 65 = some key then some (i + 1)
        else none)
      = search d.bytes parent key i (d.tokens.drop i) := by
  induction n generalizing i with
  | zero =>
    rw [Document.count] at hn
    rw [List.drop_eq_nil_of_le (by omega)]
    rfl
  | succ n ih =>
    have hi : i < d.tokens.length := by
      rw [Document.count] at hn
      omega
    have htoken : d.token i = d.tokens[i] := List.getD_eq_getElem _ _ hi
    have hstring : d.string i 65 = read d.bytes 65 d.tokens[i] := by
      rw [Document.string, string_at_eq, List.getElem?_eq_getElem hi, Option.bind_some]
    rw [List.range'_succ, List.findSome?_cons, List.drop_eq_getElem_cons hi, search, htoken,
      hstring, ih (i + 1) (by omega)]
    split_ifs <;> rfl

/-- In the table of a tree, the search of `find` and `child` may as well begin in front. -/
theorem member_eq_search {v : Value} {p : ℕ} (parent : ℕ) (key : List Byte) :
    Document.member ⟨b, value_tokens p 0xffff 0 v⟩ parent key =
      search b parent key 0 (value_tokens p 0xffff 0 v) := by
  have hfront : ∀ i, search b parent key i ((value_tokens p 0xffff 0 v).take (parent + 1)) = none := by
    refine fun i => search_eq_none fun t ht hkey => ?_
    obtain ⟨n, hn⟩ := List.getElem?_of_mem ht
    rw [List.getElem?_take] at hn
    split_ifs at hn with hlt
    have hbefore := value_keys_before v hn hkey
    omega
  rw [Document.member, List.range_eq_range', List.drop_range', Nat.zero_add, Nat.mul_one]
  conv_rhs => rw [← List.take_append_drop (parent + 1) (value_tokens p 0xffff 0 v)]
  rw [search_append, hfront, Option.none_or]
  by_cases hin : parent + 1 ≤ (value_tokens p 0xffff 0 v).length
  · rw [findSome_range_eq_search _ parent key _ (parent + 1) (by simp only [Document.count]; omega),
      List.length_take, Nat.min_eq_left hin, Nat.zero_add]
  · rw [List.drop_eq_nil_of_le (by omega), Document.count, Nat.sub_eq_zero_of_le (by dsimp only; omega)]
    rfl

/-! ## Members and nodes -/

theorem items_members_names : ∀ (items : Items k) (index : ℕ),
    (items_members index items).map Prod.fst = items.names
  | .last label value _, index => by
      rw [items_members, Items.names, List.map_map]
      exact List.map_id _
  | .more label value _ _ rest, index => by
      rw [items_members, Items.names, List.map_append, items_members_names rest, List.map_map]
      exact congrArg (· ++ rest.names) (List.map_id _)

theorem value_nodes_zero (v : Value) : v.nodes[0]? = some (.value v) := by
  cases v <;> rw [Value.nodes] <;> rfl

/-- The nodes of an item begin with its name and its value. -/
theorem label_member_nodes {label : Label k} {value w : Value} {s : Text} {index j : ℕ}
    {rest : List Node} (h : (s, j, w) ∈ label.names.map fun s => (s, index + 1, value)) :
    j = index + 0 + 1 ∧
      (label.names.map Node.name ++ (value.nodes ++ rest))[0]? = some (.name s) ∧
      (label.names.map Node.name ++ (value.nodes ++ rest))[0 + 1]? = some (.value w) := by
  cases label with
  | element => cases h
  | name t before after =>
    rw [Label.names, List.map_singleton, List.mem_singleton] at h
    cases h
    refine ⟨rfl, rfl, ?_⟩
    have hpos : 0 < value.nodes.length := by
      rw [Value.nodes_length]
      exact value.count_pos
    rw [Label.names, List.map_singleton, List.singleton_append, List.getElem?_cons_succ,
      List.getElem?_append_left hpos, value_nodes_zero]

/-- The value of a member is the node its index names, behind the node of its name. -/
theorem items_members_nodes : ∀ (items : Items k) {index j : ℕ} {s : Text} {w : Value},
    (s, j, w) ∈ items_members index items → ∃ n, j = index + n + 1 ∧
      items.nodes[n]? = some (.name s) ∧ items.nodes[n + 1]? = some (.value w)
  | .last label value after, index, j, s, w, h => by
      rw [items_members] at h
      have hnodes := @label_member_nodes k label value w s index j [] h
      rw [List.append_nil] at hnodes
      rw [Items.nodes]
      exact ⟨0, hnodes⟩
  | .more label value after before rest, index, j, s, w, h => by
      rw [items_members] at h
      rw [Items.nodes]
      rcases List.mem_append.mp h with h | h
      · exact ⟨0, label_member_nodes h⟩
      · obtain ⟨n, rfl, hname, hvalue⟩ := items_members_nodes rest h
        have hlook : ∀ i, (label.names.map Node.name ++ (value.nodes ++ rest.nodes))[
            label.names.length + value.count + i]? = rest.nodes[i]? := by
          intro i
          rw [← List.append_assoc, List.getElem?_append_right, List.length_append, List.length_map,
            Value.nodes_length, Nat.add_sub_cancel_left]
          rw [List.length_append, List.length_map, Value.nodes_length]
          exact Nat.le_add_right _ _
        refine ⟨label.names.length + value.count + n, by omega, ?_, ?_⟩
        · rw [hlook]
          exact hname
        · rw [Nat.add_assoc, hlook]
          exact hvalue

mutual

/-- Below a node stand the nodes of its value. -/
theorem nodes_before : ∀ (v : Value) {i : ℕ} {u : Value}, v.nodes[i]? = some (.value u) →
    u.nodes <+: v.nodes.drop i
  | .null, i, u, hu | .boolean _, i, u, hu | .number _, i, u, hu | .string _, i, u, hu
  | .empty _ _, i, u, hu => by
      rw [Value.nodes, List.getElem?_singleton] at hu
      split_ifs at hu with hi
      cases hu
      rw [hi, List.drop_zero]
  | .full k before items, i, u, hu => by
      cases i with
      | zero =>
        rw [value_nodes_zero] at hu
        cases hu
        rw [List.drop_zero]
      | succ i =>
        rw [Value.nodes, List.getElem?_cons_succ] at hu
        rw [@Value.nodes.eq_def (.full k before items), List.drop_succ_cons]
        exact items_nodes_before items hu

theorem items_nodes_before {k : Container} : ∀ (items : Items k) {i : ℕ} {u : Value},
    items.nodes[i]? = some (.value u) → u.nodes <+: items.nodes.drop i
  | .last label value after, i, u, hu => by
      rw [Items.nodes] at hu ⊢
      obtain ⟨hi, hu⟩ := value_of_label_append hu
      rw [List.drop_append, List.drop_eq_nil_of_le (by rw [List.length_map]; exact hi),
        List.nil_append, List.length_map]
      exact nodes_before value hu
  | .more label value after before rest, i, u, hu => by
      rw [Items.nodes] at hu ⊢
      obtain ⟨hi, hu⟩ := value_of_label_append hu
      rw [List.drop_append, List.drop_eq_nil_of_le (by rw [List.length_map]; exact hi),
        List.nil_append, List.length_map, List.drop_append]
      rw [List.getElem?_append] at hu
      split_ifs at hu with hinside
      · exact (nodes_before value hu).trans (List.prefix_append _ _)
      · rw [List.drop_eq_nil_of_le (by omega), List.nil_append]
        exact items_nodes_before rest hu

end

/-- The members of a value of the tree are nodes of the tree. -/
theorem members_of_nodes {v u w : Value} {i j : ℕ} {s : Text} (hu : v.nodes[i]? = some (.value u))
    (h : (s, j, w) ∈ members_of i u) :
    v.nodes[j - 1]? = some (.name s) ∧ v.nodes[j]? = some (.value w) := by
  cases u with
  | full k before items =>
    obtain ⟨n, rfl, hname, hvalue⟩ := items_members_nodes items h
    obtain ⟨tail, htail⟩ := nodes_before v hu
    rw [Value.nodes] at htail
    have hlook : ∀ m x, items.nodes[m]? = some x → v.nodes[i + (m + 1)]? = some x := by
      intro m x hm
      have hlt := (List.getElem?_eq_some_iff.mp hm).1
      rw [← List.getElem?_drop, ← htail, List.cons_append, List.getElem?_cons_succ,
        List.getElem?_append_left hlt, hm]
    have h0 := hlook n _ hname
    have h1 := hlook (n + 1) _ hvalue
    rw [show i + 1 + n + 1 - 1 = i + (n + 1) by omega,
      show i + 1 + n + 1 = i + (n + 1 + 1) by omega]
    exact ⟨h0, h1⟩
  | null | boolean | number | string | empty => cases h

mutual

theorem nodes_distinct : ∀ (v : Value) {u : Value}, .value u ∈ v.nodes → v.Distinct → u.Distinct
  | .null, u, hu, h | .boolean _, u, hu, h | .number _, u, hu, h | .string _, u, hu, h
  | .empty _ _, u, hu, h => by
      rw [Value.nodes, List.mem_singleton] at hu
      cases hu
      exact h
  | .full k before items, u, hu, h => by
      rw [Value.nodes, List.mem_cons] at hu
      rcases hu with hu | hu
      · cases hu
        exact h
      · rw [Value.Distinct] at h
        exact items_nodes_distinct items hu h.2

theorem items_nodes_distinct {k : Container} : ∀ (items : Items k) {u : Value},
    .value u ∈ items.nodes → items.Distinct → u.Distinct
  | .last label value after, u, hu, h => by
      rw [Items.nodes, List.mem_append] at hu
      rw [Items.Distinct] at h
      rcases hu with hu | hu
      · obtain ⟨s, -, hs⟩ := List.mem_map.mp hu
        cases hs
      · exact nodes_distinct value hu h
  | .more label value after before rest, u, hu, h => by
      rw [Items.nodes, List.mem_append, List.mem_append] at hu
      rw [Items.Distinct] at h
      rcases hu with hu | hu | hu
      · obtain ⟨s, -, hs⟩ := List.mem_map.mp hu
        cases hs
      · exact nodes_distinct value hu h.1
      · exact items_nodes_distinct rest hu h.2

end

/-- With distinct names, the member found is the member of that name. -/
theorem find_member_eq_some_iff {key : List Byte} {j : ℕ} {members : List (Text × ℕ × Value)}
    (h : ((members.map Prod.fst).map Text.decoded).Nodup) :
    find_member key members = some j ↔ ∃ s w, (s, j, w) ∈ members ∧ s.decoded = key := by
  rw [find_member, Option.map_eq_some_iff]
  constructor
  · rintro ⟨⟨s, i, w⟩, hfind, rfl⟩
    have hkey := List.find?_some hfind
    exact ⟨s, w, List.mem_of_find?_eq_some hfind, of_decide_eq_true hkey⟩
  · rintro ⟨s, w, hmem, rfl⟩
    cases hfind : members.find? fun m => m.1.decoded = s.decoded with
    | none =>
      rw [List.find?_eq_none] at hfind
      exact absurd (decide_eq_true rfl) (hfind _ hmem)
    | some m =>
      have hkey := List.find?_some hfind
      rw [decide_eq_true_eq] at hkey
      rw [List.map_map] at h
      have hsame := List.inj_on_of_nodup_map h (List.mem_of_find?_eq_some hfind) hmem hkey
      exact ⟨m, rfl, by rw [hsame]⟩

theorem label_names_array (label : Label .array) : label.names = [] := by
  cases label
  rfl

theorem items_names_array : ∀ items : Items .array, items.names = []
  | .last label _ _ => by rw [Items.names, label_names_array]
  | .more label _ _ _ rest => by
      rw [Items.names, label_names_array, items_names_array rest, List.append_nil]

/-- Only an object has members. -/
theorem members_of_eq_nil {u : Value} (h : kind_of u ≠ .object) (i : ℕ) : members_of i u = [] := by
  cases u with
  | full k before items =>
    cases k with
    | object => exact absurd rfl h
    | array =>
      have hnames := items_members_names items (i + 1)
      rw [items_names_array, List.map_eq_nil_iff] at hnames
      exact hnames
  | null | boolean | number | string | empty => rfl

theorem members_of_nodup {u : Value} (h : u.Distinct) (i : ℕ) :
    (((members_of i u).map Prod.fst).map Text.decoded).Nodup := by
  cases u with
  | full k before items =>
    rw [Value.Distinct] at h
    rw [members_of, items_members_names]
    exact h.1
  | null | boolean | number | string | empty => exact List.nodup_nil

/-! ## Strings and numbers -/

mutual

theorem value_nodes_texts : ∀ (v : Value) {n : Node} {s : Text}, n ∈ v.nodes →
    node_text n = some s → s ∈ v.texts
  | .null, n, s, hn, hs | .boolean _, n, s, hn, hs | .number _, n, s, hn, hs
  | .empty _ _, n, s, hn, hs => by
      rw [Value.nodes, List.mem_singleton] at hn
      subst hn
      cases hs
  | .string t, n, s, hn, hs => by
      rw [Value.nodes, List.mem_singleton] at hn
      subst hn
      cases hs
      rw [Value.texts]
      exact List.mem_cons_self
  | .full k before items, n, s, hn, hs => by
      rw [Value.nodes, List.mem_cons] at hn
      rw [Value.texts]
      rcases hn with rfl | hn
      · cases hs
      · exact items_nodes_texts items hn hs

theorem items_nodes_texts {k : Container} : ∀ (items : Items k) {n : Node} {s : Text},
    n ∈ items.nodes → node_text n = some s → s ∈ items.texts
  | .last label value after, n, s, hn, hs => by
      rw [Items.nodes, List.mem_append] at hn
      rw [Items.texts, List.mem_append]
      rcases hn with hn | hn
      · obtain ⟨t, ht, rfl⟩ := List.mem_map.mp hn
        cases hs
        exact Or.inl ht
      · exact Or.inr (value_nodes_texts value hn hs)
  | .more label value after before rest, n, s, hn, hs => by
      rw [Items.nodes, List.mem_append, List.mem_append] at hn
      rw [Items.texts, List.mem_append, List.mem_append]
      rcases hn with hn | hn | hn
      · obtain ⟨t, ht, rfl⟩ := List.mem_map.mp hn
        cases hs
        exact Or.inl ht
      · exact Or.inr (Or.inl (value_nodes_texts value hn hs))
      · exact Or.inr (Or.inr (items_nodes_texts rest hn hs))

end

/-- The nodes with a text are the strings, names included. -/
theorem node_text_isSome_iff (n : Node) : (node_text n).isSome = true ↔ node_kind n = .string := by
  cases n with
  | name s => exact ⟨fun _ => rfl, fun _ => rfl⟩
  | value v =>
    cases v with
    | string s => exact ⟨fun _ => rfl, fun _ => rfl⟩
    | null => exact ⟨fun h => (by cases h), fun h => (by cases h)⟩
    | boolean t => exact ⟨fun h => (by cases h), fun h => (by cases h)⟩
    | number n => exact ⟨fun h => (by cases h), fun h => (by cases h)⟩
    | empty k w => exact ⟨fun h => (by cases h), fun h => (by cases k <;> cases h)⟩
    | full k w items => exact ⟨fun h => (by cases h), fun h => (by cases k <;> cases h)⟩

theorem node_source_of_text {n : Node} {s : Text} (h : node_text n = some s) :
    node_source n = s.source := by
  cases n with
  | name t =>
    cases h
    rfl
  | value v =>
    cases v with
    | string t =>
      cases h
      rw [node_source, Value.source]
    | null | boolean | number | empty | full => cases h

/-- The token of a node reads as the string the node is, if that and a NUL fit. -/
theorem read_eq_some_iff {t : Token} {n : Node} {capacity : ℕ} {out : List Byte}
    (h : TokenOf b t n) (hs : ∀ s, node_text n = some s → Admitted s) :
    read b capacity t = some out ↔
      ∃ s, node_text n = some s ∧ s.decoded.length < capacity ∧ out = s.decoded := by
  cases hn : node_text n with
  | none =>
    have hkind : t.kind ≠ .string := by
      rw [h.kind]
      intro hstring
      have hsome := (node_text_isSome_iff n).mpr hstring
      rw [hn] at hsome
      cases hsome
    rw [read, if_pos hkind]
    simp
  | some s =>
    have hkind : t.kind = .string := by
      rw [h.kind]
      exact (node_text_isSome_iff n).mp (by rw [hn]; rfl)
    have hspans := h.spans
    have hstop := h.stop
    rw [node_source_of_text hn] at hspans hstop
    rw [read_text capacity hkind rfl hstop hspans (hs s hn)]
    split_ifs with hfits
    · simp [hfits, eq_comm]
    · simp [hfits]

/-- The value of decimal digits, the most significant one first. -/
def decimal_value (ds : List Digit) : ℕ := ds.foldl (fun v d => v * 10 + d.val) 0

theorem foldl_digits_le (ds : List Digit) (v : ℕ) : v ≤ ds.foldl (fun v d => v * 10 + d.val) v := by
  induction ds generalizing v with
  | nil => exact le_rfl
  | cons d ds ih => exact le_trans (by omega) (ih (v * 10 + d.val))

/-- The loop of `uint32` over digits: it stops as soon as the value leaves 32 bits. -/
theorem uint32_loop_digits (ds : List Digit) (v : ℕ) (hv : v < 2 ^ 32) :
    Document.uint32_loop (digit_bytes ds) v =
      if ds.foldl (fun v d => v * 10 + d.val) v < 2 ^ 32 then
        some (ds.foldl (fun v d => v * 10 + d.val) v)
      else none := by
  induction ds generalizing v with
  | nil => rw [List.foldl_nil, if_pos hv]; rfl
  | cons d ds ih =>
    have hd := d.isLt
    rw [digit_bytes_cons, Document.uint32_loop, digit_digit_byte, digit_byte_toNat,
      Nat.add_sub_cancel_left, List.foldl_cons, if_neg (by decide)]
    by_cases hfits : v * 10 + d.val < 2 ^ 32
    · rw [if_neg (by omega), ih _ hfits]
    · have hle := foldl_digits_le ds (v * 10 + d.val)
      rw [if_pos (by omega), if_neg (by omega)]

/-- The loop reads digits only, and refuses what exceeds 32 bits. -/
theorem uint32_loop_eq_some_iff (l : List Byte) (n : ℕ) :
    Document.uint32_loop l 0 = some n ↔
      ∃ ds : List Digit, l = digit_bytes ds ∧ decimal_value ds = n ∧ n < 2 ^ 32 := by
  constructor
  · intro h
    have hdigits : ∀ c ∈ l, digit c = true := by
      have hall : ∀ (l : List Byte) (v : ℕ), Document.uint32_loop l v = some n →
          ∀ c ∈ l, digit c = true := by
        intro l
        induction l with
        | nil => exact fun _ _ c hc => absurd hc List.not_mem_nil
        | cons c l ih =>
          intro v hv
          rw [Document.uint32_loop] at hv
          split_ifs at hv with hd hover
          refine List.forall_mem_cons.mpr ⟨?_, ih _ hv⟩
          rwa [Bool.not_eq_true', Bool.not_eq_false] at hd
      exact hall l 0 h
    obtain ⟨ds, rfl⟩ := exists_map_eq (fun _ => exists_digit) hdigits
    have heq := uint32_loop_digits ds 0 (by norm_num)
    rw [digit_bytes, h] at heq
    split_ifs at heq with hlt
    cases heq
    exact ⟨ds, rfl, rfl, hlt⟩
  · rintro ⟨ds, rfl, rfl, hlt⟩
    rw [decimal_value] at hlt ⊢
    rw [uint32_loop_digits ds 0 (by norm_num), if_pos hlt]

/-! ## The buffer of `text` -/

/-- Bytes written into a buffer. -/
def write_at (out : List Byte) (used : ℕ) (l : List Byte) : List Byte :=
  out.take used ++ (l ++ out.drop (used + l.length))

/-- The loop of `text` with the buffer it fills: `used` bytes have been written. -/
def text_into_loop (b : List Byte) (size : ℕ) : ℕ → ℕ → ℕ → List Byte → Option (List Byte)
  | 0, _, _, _ => none
  | fuel + 1, p, used, out =>
    if p ≥ size then none
    else if byte_at b p = 0x22 then
      if used ≥ out.length then none else some (write_at out used [0])
    else if byte_at b p < 0x20 then none
    else
      match code_point b size p with
      | none => none
      | some (cp, p) =>
        if cp = 0 then none
        else if used + (utf8 cp).length > max_string || used + (utf8 cp).length ≥ out.length then none
        else text_into_loop b size fuel p (used + (utf8 cp).length) (write_at out used (utf8 cp))

/-- `Document::string` with its buffer. -/
def Document.string_into (d : Document) (index : ℕ) (out : List Byte) : Option (List Byte) :=
  match d.tokens[index]? with
  | none => none
  | some t =>
    if t.kind ≠ .string then none
    else if t.start ≥ t.stop ∨ byte_at d.bytes t.start ≠ 0x22 then none
    else text_into_loop d.bytes t.stop (t.stop - t.start) (t.start + 1) 0 out

theorem write_at_append (s l buffer : List Byte) :
    write_at (s ++ buffer.drop s.length) s.length l
      = (s ++ l) ++ buffer.drop (s ++ l).length := by
  rw [write_at, List.take_left', List.drop_append, List.drop_eq_nil_of_le (by omega),
    List.nil_append, List.drop_drop, List.length_append, List.append_assoc,
    show s.length + (s.length + l.length - s.length) = s.length + l.length by omega]
  rfl

/-- The buffer holds what has been decoded, and behind it what it held before. -/
theorem text_into_loop_eq (size : ℕ) (buffer : List Byte) (fuel p : ℕ) (s : List Byte)
    (hs : s.length ≤ buffer.length) :
    text_into_loop b size fuel p s.length (s ++ buffer.drop s.length) =
      (text_loop b size (some buffer.length) fuel p s).map fun r =>
        r.1 ++ 0 :: buffer.drop (r.1.length + 1) := by
  have hlen : (s ++ buffer.drop s.length).length = buffer.length := by
    rw [List.length_append, List.length_drop]
    omega
  -- the loops take the same branches: a full buffer is the bound that `text_loop` is given
  induction fuel generalizing p s with
  | zero => rfl
  | succ fuel ih =>
    rw [text_into_loop, text_loop, hlen]
    by_cases hp : p ≥ size
    · rw [if_pos hp, if_pos hp]
      rfl
    rw [if_neg hp, if_neg hp]
    by_cases hquote : byte_at b p = 0x22
    · rw [if_pos hquote, if_pos hquote]
      by_cases hfull : s.length ≥ buffer.length
      · rw [if_pos hfull, if_pos (by simpa [overflows] using hfull)]
        rfl
      · rw [if_neg hfull, if_neg (by simpa [overflows] using hfull), Option.map_some,
          write_at_append s [0] buffer, List.length_append,
          List.append_assoc]
        rfl
    rw [if_neg hquote, if_neg hquote]
    by_cases hctrl : byte_at b p < 0x20
    · rw [if_pos hctrl, if_pos hctrl]
      rfl
    rw [if_neg hctrl, if_neg hctrl]
    cases code_point b size p with
    | none => rfl
    | some r =>
      obtain ⟨cp, q⟩ := r
      dsimp only
      by_cases hnul : cp = 0
      · rw [if_pos hnul, if_pos hnul]
        rfl
      rw [if_neg hnul, if_neg hnul]
      have hcond : (decide (s.length + (utf8 cp).length > max_string) ||
          decide (s.length + (utf8 cp).length ≥ buffer.length))
        = (decide (s.length + (utf8 cp).length > max_string) ||
          overflows (some buffer.length) (s.length + (utf8 cp).length)) := rfl
      rw [hcond]
      split_ifs with hover
      · rfl
      · have hroom : s.length + (utf8 cp).length ≤ buffer.length := by
          simp only [overflows, Bool.or_eq_true, decide_eq_true_eq, not_or] at hover
          omega
        have hs' : (s ++ utf8 cp).length ≤ buffer.length := by
          rw [List.length_append]
          exact hroom
        rw [write_at_append s _ buffer, ← List.length_append]
        exact ih q (s ++ utf8 cp) hs' (by rw [List.length_append, List.length_drop]; omega)

/-- **`string` with its buffer leaves the decoded bytes and a NUL at its front.** -/
theorem string_into_eq (d : Document) (index : ℕ) (buffer : List Byte) :
    d.string_into index buffer = (d.string index buffer.length).map fun s =>
      s ++ 0 :: buffer.drop (s.length + 1) := by
  rw [Document.string_into, Document.string, string_at]
  cases d.tokens[index]? with
  | none => rfl
  | some t =>
    dsimp only
    by_cases hkind : t.kind ≠ .string
    · rw [if_pos hkind, if_pos hkind]
      rfl
    rw [if_neg hkind, if_neg hkind, text]
    by_cases hstart : t.start ≥ t.stop ∨ byte_at d.bytes t.start ≠ 0x22
    · rw [if_pos hstart, if_pos hstart]
      rfl
    · rw [if_neg hstart, if_neg hstart, Option.map_map]
      exact text_into_loop_eq t.stop buffer _ _ [] (Nat.zero_le _)

/-! ## The index -/

/-- A node and its token have the same index. -/
theorem forall₂_getElem? {α β : Type} {R : α → β → Prop} {l : List α} {m : List β}
    (h : List.Forall₂ R l m) (i : ℕ) :
    (l[i]? = none ∧ m[i]? = none) ∨ ∃ x y, l[i]? = some x ∧ m[i]? = some y ∧ R x y := by
  induction h generalizing i with
  | nil => exact Or.inl ⟨rfl, rfl⟩
  | cons hxy _ ih =>
    cases i with
    | zero => exact Or.inr ⟨_, _, rfl, rfl, hxy⟩
    | succ i => exact ih i

/-- `string` reads the text of a node that has one, if there is room for it. -/
theorem string_eq_some_iff {v : Value} {d : Document} (hd : d.bytes = b)
    (h : List.Forall₂ (TokenOf b) d.tokens v.nodes) (hs : ∀ s ∈ v.texts, Admitted s)
    (i capacity : ℕ) (out : List Byte) :
    d.string i capacity = some out ↔
      ∃ s, v.nodes[i]?.bind node_text = some s ∧ s.decoded.length < capacity ∧ out = s.decoded := by
  rw [Document.string, string_at_eq, hd]
  rcases forall₂_getElem? h i with ⟨ht, hn⟩ | ⟨t, n, ht, hn, htn⟩
  · rw [ht, hn]
    simp
  · rw [ht, hn, Option.bind_some, Option.bind_some]
    exact read_eq_some_iff htn fun s hsome =>
      hs s (value_nodes_texts v (List.mem_of_getElem? hn) hsome)

/-- `uint32` reads a number that is written with digits alone. -/
theorem uint32_eq_some_iff {v : Value} {d : Document} (hd : d.bytes = b)
    (h : List.Forall₂ (TokenOf b) d.tokens v.nodes) (i n : ℕ) :
    d.uint32 i = some n ↔ ∃ (num : Number) (ds : List Digit),
      v.nodes[i]? = some (.value (.number num)) ∧ num.source = digit_bytes ds ∧
      decimal_value ds = n ∧ n < 2 ^ 32 := by
  rcases forall₂_getElem? h i with ⟨ht, hn⟩ | ⟨t, x, ht, hn, htn⟩
  · have hout : i ≥ d.count := List.getElem?_eq_none_iff.mp ht
    rw [Document.uint32, if_pos (Or.inl hout), hn]
    simp
  · obtain ⟨hi, hget⟩ := List.getElem?_eq_some_iff.mp ht
    have htoken : d.token i = t := by
      rw [Document.token, List.getD_eq_getElem _ _ hi, hget]
    by_cases hnumber : ∃ num, x = .value (.number num)
    · obtain ⟨num, rfl⟩ := hnumber
      have hcount : ¬ i ≥ d.count := Nat.not_le.mpr hi
      have hkind : t.kind = .number := htn.kind
      have hslice := htn.spans.slice_eq
      rw [← htn.stop] at hslice
      rw [Document.uint32, htoken, if_neg (not_or.mpr ⟨hcount, not_not.mpr hkind⟩), hd, hslice,
        uint32_loop_eq_some_iff, hn]
      constructor
      · rintro ⟨ds, hds, hvalue, hlt⟩
        exact ⟨num, ds, rfl, by rwa [node_source, Value.source] at hds, hvalue, hlt⟩
      · rintro ⟨num', ds, heq, hds, hvalue, hlt⟩
        cases heq
        exact ⟨ds, by rwa [node_source, Value.source], hvalue, hlt⟩
    · have hkind : t.kind ≠ .number := by
        rw [htn.kind]
        intro hno
        apply hnumber
        cases x with
        | name s => cases hno
        | value u =>
          cases u with
          | number num => exact ⟨num, rfl⟩
          | null | boolean | string => cases hno
          | empty k w => cases k <;> cases hno
          | full k w items => cases k <;> cases hno
      rw [Document.uint32, htoken, if_pos (Or.inr hkind), hn]
      constructor
      · intro hfalse
        cases hfalse
      · rintro ⟨num, ds, heq, -⟩
        exact absurd ⟨num, Option.some.inj heq⟩ hnumber

/-- A token's kind is its node's. -/
theorem token_kind {v : Value} {d : Document} (h : List.Forall₂ (TokenOf b) d.tokens v.nodes) {i : ℕ}
    {n : Node} (hn : v.nodes[i]? = some n) : i < d.count ∧ (d.token i).kind = node_kind n := by
  rcases forall₂_getElem? h i with ⟨-, hnone⟩ | ⟨t, x, ht, hx, htx⟩
  · rw [hn] at hnone
    cases hnone
  · obtain ⟨hi, hget⟩ := List.getElem?_eq_some_iff.mp ht
    rw [hn] at hx
    cases hx
    rw [Document.token, List.getD_eq_getElem _ _ hi, hget]
    exact ⟨hi, htx.kind⟩

/-- `boolean` reads a boolean, by the first byte of its word. -/
theorem boolean_eq_some_iff {v : Value} {d : Document} (hd : d.bytes = b)
    (h : List.Forall₂ (TokenOf b) d.tokens v.nodes) (i : ℕ) (t : Bool) :
    d.boolean i = some t ↔ v.nodes[i]? = some (.value (.boolean t)) := by
  rcases forall₂_getElem? h i with ⟨ht, hn⟩ | ⟨x, n, ht, hn, hx⟩
  · have hout : i ≥ d.count := List.getElem?_eq_none_iff.mp ht
    rw [Document.boolean, if_pos (Or.inl hout), hn]
    simp
  · obtain ⟨hi, hget⟩ := List.getElem?_eq_some_iff.mp ht
    have hcount : ¬ i ≥ d.count := Nat.not_le.mpr hi
    have htoken : d.token i = x := by
      rw [Document.token, List.getD_eq_getElem _ _ hi, hget]
    rw [Document.boolean, htoken, hn, Option.some.injEq]
    by_cases hboolean : ∃ u, n = .value (.boolean u)
    · obtain ⟨u, rfl⟩ := hboolean
      have hkind : x.kind = .boolean := hx.kind
      have hspans := hx.spans
      rw [if_neg (not_or.mpr ⟨hcount, not_not.mpr hkind⟩), hd, Option.some.injEq]
      -- The first letter tells the two words apart.
      cases u with
      | false =>
        rw [node_source, Value.source, if_neg Bool.false_ne_true, ascii_false, spans_cons] at hspans
        rw [hspans.1.2]
        cases t <;> simp
      | true =>
        rw [node_source, Value.source, if_pos rfl, ascii_true, spans_cons] at hspans
        rw [hspans.1.2]
        cases t <;> simp
    · have hkind : x.kind ≠ .boolean := by
        rw [hx.kind]
        intro hno
        apply hboolean
        cases n with
        | name s => cases hno
        | value u =>
          cases u with
          | boolean u => exact ⟨u, rfl⟩
          | null | number | string => cases hno
          | empty k w => cases k <;> cases hno
          | full k w items => cases k <;> cases hno
      rw [if_pos (Or.inr hkind)]
      constructor
      · intro hfalse
        cases hfalse
      · intro heq
        exact absurd ⟨t, heq⟩ hboolean

/-- The value of a document stands in its text. -/
theorem spans_value {before after : List Space} {v : Value}
    (hb : b = blank before ++ (v.source ++ blank after)) : Spans b before.length v.source := by
  have hwhole : Spans b 0 (blank before ++ (v.source ++ blank after)) := by
    rw [← hb]
    exact List.prefix_rfl
  rw [spans_append, spans_append, blank_length, Nat.zero_add] at hwhole
  exact hwhole.2.1

section tables

variable {v : Value} {p : ℕ}

/-- The members that `find` and `child` find. -/
theorem member_eq_some_iff (hspans : Spans b p v.source) (hv : Within v) {i : ℕ} {u : Value}
    (hu : v.nodes[i]? = some (.value u)) (key : List Byte) (j : ℕ) :
    Document.member ⟨b, value_tokens p 0xffff 0 v⟩ i key = some j ↔
      ∃ s w, (s, j, w) ∈ members_of i u ∧ s.decoded = key := by
  have hsearch := @search_value b key v p 0xffff 0 i u hu hspans hv.admitted
  rw [Nat.zero_add] at hsearch
  rw [member_eq_search, hsearch]
  exact find_member_eq_some_iff
    (members_of_nodup (nodes_distinct v (List.mem_of_getElem? hu) hv.distinct) i)

theorem root_kind (b : List Byte) (p : ℕ) (v : Value) :
    (Document.token ⟨b, value_tokens p 0xffff 0 v⟩ 0).kind = kind_of v := by
  cases v <;> rw [Document.token, value_tokens] <;> rfl

/-- `find` finds the member of the root that has the key. -/
theorem find_eq_some_iff (hspans : Spans b p v.source) (hv : Within v) (key : String) (j : ℕ) :
    Document.find ⟨b, value_tokens p 0xffff 0 v⟩ key = some j ↔
      ∃ s w, (s, j, w) ∈ members_of 0 v ∧ s.decoded = ascii key := by
  have hcount : Document.count ⟨b, value_tokens p 0xffff 0 v⟩ ≠ 0 := by
    have hpos := v.count_pos
    rw [Document.count, value_tokens_length]
    exact hpos.ne'
  rw [Document.find, root_kind]
  by_cases hobject : kind_of v = .object
  · rw [if_neg (not_or.mpr ⟨hcount, not_not.mpr hobject⟩)]
    exact member_eq_some_iff hspans hv (value_nodes_zero v) (ascii key) j
  · rw [if_pos (Or.inr hobject), members_of_eq_nil hobject]
    simp

end tables

/-- **A document that `parse` returns is an index of its value.** Its tokens are the preorder
listing of a tree that spells the text between blanks, one token for each node, with the
node's kind and exactly its text. A search for a name in the root, or in the object at any
token, finds the value of the member of that name on that level and nothing else. `string`
decodes the strings that fit with their NUL, and `uint32` the numbers that are digits and fit. -/
theorem document_indexes_value (b : List Byte) (d : Document) (h : Document.parse b = some d) :
    ∃ (before after : List Space) (v : Value), b = blank before ++ (v.source ++ blank after) ∧
      d.tokens = value_tokens before.length 0xffff 0 v ∧
      List.Forall₂ (TokenOf b) d.tokens v.nodes ∧
      (∀ (key : String) (j : ℕ), d.find key = some j ↔
        ∃ s w, (s, j, w) ∈ members_of 0 v ∧ s.decoded = ascii key) ∧
      (∀ (i : ℕ) (u : Value), v.nodes[i]? = some (.value u) →
        (∀ (key : String) (j : ℕ), child d i key = some j ↔
          ∃ s w, (s, j, w) ∈ members_of i u ∧ s.decoded = ascii key) ∧
        (∀ s j w, (s, j, w) ∈ members_of i u →
          v.nodes[j - 1]? = some (.name s) ∧ v.nodes[j]? = some (.value w)) ∧
        (((members_of i u).map Prod.fst).map Text.decoded).Nodup) ∧
      (∀ (i capacity : ℕ) (out : List Byte), d.string i capacity = some out ↔
        ∃ s, v.nodes[i]?.bind node_text = some s ∧ s.decoded.length < capacity ∧
          out = s.decoded) ∧
      (∀ (i : ℕ) (buffer out : List Byte), d.string_into i buffer = some out ↔
        ∃ s, v.nodes[i]?.bind node_text = some s ∧ s.decoded.length < buffer.length ∧
          out = s.decoded ++ 0 :: buffer.drop (s.decoded.length + 1)) ∧
      (∀ i n : ℕ, d.uint32 i = some n ↔ ∃ (num : Number) (ds : List Digit),
        v.nodes[i]? = some (.value (.number num)) ∧ num.source = digit_bytes ds ∧
        decimal_value ds = n ∧ n < 2 ^ 32) := by
  obtain ⟨-, before, after, v, hb, hv, rfl⟩ := (parse_eq_some_iff b d).mp h
  have hspans := spans_value hb
  have hnodes := @value_tokens_nodes b v before.length 0xffff 0 hspans
  have hstring := @string_eq_some_iff b v ⟨b, value_tokens before.length 0xffff 0 v⟩ rfl hnodes
    hv.admitted
  refine ⟨before, after, v, hb, rfl, hnodes, find_eq_some_iff hspans hv,
    fun i u hu => ⟨fun key j => ?_, fun s j w hmem => members_of_nodes hu hmem, ?_⟩, hstring,
    fun i buffer out => ?_, uint32_eq_some_iff rfl hnodes⟩
  · exact member_eq_some_iff hspans hv hu (ascii key) j
  · exact members_of_nodup (nodes_distinct v (List.mem_of_getElem? hu) hv.distinct) i
  · rw [string_into_eq, Option.map_eq_some_iff]
    constructor
    · rintro ⟨s, hs, rfl⟩
      obtain ⟨t, ht, hlt, rfl⟩ := (hstring _ _ _).mp hs
      exact ⟨t, ht, hlt, rfl⟩
    · rintro ⟨t, ht, hlt, rfl⟩
      exact ⟨t.decoded, (hstring _ _ _).mpr ⟨t, ht, hlt, rfl⟩, rfl⟩

/-- An object with a member `op` inside its first member, and one of its own whose name is
written with an escape. -/
def sample_text : List Byte := ascii "\x7b\"a\":\x7b\"op\":1\x7d, \"\\u006fp\":2\x7d"

def sample_document : Document :=
  ⟨sample_text,
    [⟨.object, 0, 27, 0xffff, 7, false⟩, ⟨.string, 1, 4, 0, 2, true⟩, ⟨.object, 5, 13, 0, 5, false⟩,
      ⟨.string, 6, 10, 2, 4, true⟩, ⟨.number, 11, 12, 2, 5, false⟩, ⟨.string, 15, 24, 0, 6, true⟩,
      ⟨.number, 25, 26, 0, 7, false⟩]⟩

example : sample_document.find "op" = some 6 ∧ child sample_document 2 "op" = some 4 := by
  decide +kernel

theorem document_indexes_value_sample : Document.parse sample_text = some sample_document ∧
    ∃ (before after : List Space) (v : Value),
      sample_text = blank before ++ (v.source ++ blank after) ∧
      sample_document.tokens = value_tokens before.length 0xffff 0 v := by
  have hparse : Document.parse sample_text = some sample_document := by decide +kernel
  obtain ⟨before, after, v, htext, htokens, -⟩ := document_indexes_value _ _ hparse
  exact ⟨hparse, before, after, v, htext, htokens⟩

end Firmingo.Json
