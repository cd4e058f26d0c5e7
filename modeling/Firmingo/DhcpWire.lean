/-
The options of a datagram, and those of a reply.

`parse_options` is given twice. `Firmingo.Dhcp` has it over the bytes of the datagram; here it
walks the buffer with an index, as the source does, keeps pointers, and every read of a byte
that is not of the datagram is a fault. The buffer still holds the bytes of earlier
datagrams behind, and no run looks at them.

What is accepted is a language: a sequence of PADs and options, an END, and how often each
option the server knows may occur.
-/
import Firmingo.Checked
import Firmingo.DhcpFrame

set_option autoImplicit false

open Octets Checked

namespace Firmingo.Dhcp

/-! ## Turns of the loop -/

section Turns

variable (fuel : ℕ) (o : Options)

theorem parse_loop_pad (rest : List Byte) : parse_loop (fuel + 1) (0 :: rest) o = parse_loop fuel rest o := by
  cases rest <;> rfl

theorem parse_loop_end (rest : List Byte) :
    parse_loop (fuel + 1) (255 :: rest) o = if o.type ≠ 0 then some o else none := by
  cases rest <;> rfl

variable {code : Byte} (hcode : code ≠ 0 ∧ code ≠ 255)
include hcode

theorem parse_loop_bare : parse_loop (fuel + 1) [code] o = none := by
  rw [parse_loop, if_neg hcode.1, if_neg hcode.2]

theorem parse_loop_option (n : Byte) (rest : List Byte) :
    parse_loop (fuel + 1) (code :: n :: rest) o =
      if n.toNat > rest.length then none
      else (parse_option code (rest.take n.toNat) o).bind (parse_loop fuel (rest.drop n.toNat)) := by
  rw [parse_loop, if_neg hcode.1, if_neg hcode.2]
  split
  · rfl
  · cases parse_option code (rest.take n.toNat) o with
    | none => rfl
    | some o => rfl

end Turns

/-! ## The walk over the buffer -/

namespace Walk

/-- `options_t`, its pointers as indices of the packet. -/
structure Pointers where
  type : Byte := 0
  requested : Option ℕ := none
  server : Option ℕ := none
  client : Option (ℕ × ℕ) := none

/-- `p[i]`, a byte of the datagram. -/
def byte (packet : List Byte) (len i : ℕ) : Exec Byte :=
  (span (packet.take len) i 1).map fun bytes => bytes.getD 0 0

/-- The `switch` over the code; the data starts at `i`. -/
def parse_option (packet : List Byte) (len : ℕ) (code : Byte) (i n : ℕ) (o : Pointers) :
    Exec (Option Pointers) :=
  if code = 53 then
    if n ≠ 1 || o.type ≠ 0 then .ok none
    else byte packet len i >>= fun type =>
      .ok (if type = 0 then none else some { o with type := type })
  else if code = 50 then
    .ok (if n ≠ 4 || o.requested.isSome then none else some { o with requested := some i })
  else if code = 54 then
    .ok (if n ≠ 4 || o.server.isSome then none else some { o with server := some i })
  else if code = 61 then
    .ok (if n < 2 || n > client_id_max || o.client.isSome then none
      else some { o with client := some (i, n) })
  else if code = 52 then .ok none
  else .ok (some o)

/-- The loop of `parse_options`, with fuel. -/
def parse_loop (packet : List Byte) (len : ℕ) : ℕ → ℕ → Pointers → Exec (Option Pointers)
  | 0, _, _ => .ok none
  | fuel + 1, i, o =>
    if i < len then
      byte packet len i >>= fun code =>
        if code = 0 then parse_loop packet len fuel (i + 1) o
        else if code = 255 then .ok (if o.type ≠ 0 then some o else none)
        else if i + 1 = len then .ok none
        else
          byte packet len (i + 1) >>= fun n =>
          minus len (i + 2) >>= fun room =>
            if n.toNat > room then .ok none
            else
              parse_option packet len code (i + 2) n.toNat o >>= fun next =>
                match next with
                | none => .ok none
                | some o => parse_loop packet len fuel (i + 2 + n.toNat) o
    else .ok none

/-- `parse_options`. -/
def parse_options (packet : List Byte) (len : ℕ) : Exec (Option Pointers) :=
  parse_loop packet len (len + 1) options_offset {}

/-- What the pointers point at. -/
def Pointers.contents (packet : List Byte) (o : Pointers) : Options where
  type := o.type
  requested := o.requested.map (ip4_at packet)
  server := o.server.map (ip4_at packet)
  client := o.client.map fun s => field packet s.1 s.2

section Agree

variable (p stale : List Byte)

theorem byte_eq {i : ℕ} (h : i < p.length) :
    byte (p ++ stale) p.length i = .ok (p.getD i 0) := by
  rw [byte, List.take_left, span_eq (by omega), ok_map]
  congr 1
  rw [getD_take_of_lt _ (by omega), getD_drop, Nat.add_zero]

/-- An address that lies in the datagram is read from it. -/
theorem ip4_at_eq {i : ℕ} (h : i + 4 ≤ p.length) :
    ip4_at (p ++ stale) i = ip4_at ((p.drop i).take 4) 0 := by
  have hbyte : ∀ k < 4, (p ++ stale).getD (i + k) 0 = ((p.drop i).take 4).getD k 0 := by
    intro k hk
    rw [getD_take_of_lt _ hk, getD_drop, List.getD_append _ _ _ _ (by omega)]
  rw [ip4_at, ip4_at, ← hbyte 0 (by omega), ← hbyte 1 (by omega), ← hbyte 2 (by omega),
    ← hbyte 3 (by omega)]
  rfl

theorem field_eq {i n : ℕ} (h : i + n ≤ p.length) : field (p ++ stale) i n = (p.drop i).take n := by
  rw [field, List.drop_append_of_le_length (by omega), List.take_append_of_le_length]
  rw [List.length_drop]
  omega

/-- One option: the pointers the code keeps read as the option's contents. -/
theorem parse_option_eq (code : Byte) {i n : ℕ} (h : i + n ≤ p.length) (o : Pointers) :
    ∃ r, parse_option (p ++ stale) p.length code i n o = .ok r ∧
      r.map (·.contents (p ++ stale))
        = Dhcp.parse_option code ((p.drop i).take n) (o.contents (p ++ stale)) := by
  have hlen : ((p.drop i).take n).length = n := by
    rw [List.length_take, List.length_drop]
    omega
  unfold parse_option Dhcp.parse_option
  rw [hlen]
  -- the message type is the one option whose value is read here; the others keep a pointer
  by_cases h53 : code = 53
  · rw [if_pos h53, if_pos h53]
    by_cases hbad : n ≠ 1 ∨ o.type ≠ 0
    · refine ⟨none, if_pos (by simpa using hbad), ?_⟩
      rw [if_pos]
      · rfl
      · rcases hbad with hbad | hbad
        · simp [hbad]
        · have : (o.contents (p ++ stale)).type ≠ 0 := hbad
          simp [this]
    · rw [not_or, not_not, not_not] at hbad
      obtain ⟨rfl, htype⟩ := hbad
      have hdata : ((p.drop i).take 1).getD 0 0 = p.getD i 0 := by
        rw [getD_take_of_lt _ (by omega), getD_drop, Nat.add_zero]
      have htype' : (o.contents (p ++ stale)).type = 0 := htype
      rw [if_neg (by simp [htype]), byte_eq p stale (by omega), ok_bind, hdata]
      refine ⟨_, rfl, ?_⟩
      generalize p.getD i 0 = type
      by_cases hzero : type = 0
      · rw [if_pos hzero, if_pos (by simp [hzero])]
        rfl
      · rw [if_neg hzero, if_neg (by simp [hzero, htype'])]
        rfl
  rw [if_neg h53, if_neg h53]
  by_cases h50 : code = 50
  · rw [if_pos h50, if_pos h50]
    refine ⟨_, rfl, ?_⟩
    have hsome : (o.contents (p ++ stale)).requested.isSome = o.requested.isSome := Option.isSome_map
    rw [hsome]
    split
    · rfl
    · next hok =>
      simp only [Bool.or_eq_true, decide_eq_true_eq, not_or, not_not] at hok
      obtain ⟨rfl, -⟩ := hok
      rw [← ip4_at_eq p stale h]
      rfl
  rw [if_neg h50, if_neg h50]
  by_cases h54 : code = 54
  · rw [if_pos h54, if_pos h54]
    refine ⟨_, rfl, ?_⟩
    have hsome : (o.contents (p ++ stale)).server.isSome = o.server.isSome := Option.isSome_map
    rw [hsome]
    split
    · rfl
    · next hok =>
      simp only [Bool.or_eq_true, decide_eq_true_eq, not_or, not_not] at hok
      obtain ⟨rfl, -⟩ := hok
      rw [← ip4_at_eq p stale h]
      rfl
  rw [if_neg h54, if_neg h54]
  by_cases h61 : code = 61
  · rw [if_pos h61, if_pos h61]
    refine ⟨_, rfl, ?_⟩
    have hsome : (o.contents (p ++ stale)).client.isSome = o.client.isSome := Option.isSome_map
    rw [hsome]
    split
    · rfl
    · rw [← field_eq p stale h]
      rfl
  rw [if_neg h61, if_neg h61]
  by_cases h52 : code = 52
  · rw [if_pos h52, if_pos h52]
    exact ⟨none, rfl, rfl⟩
  · rw [if_neg h52, if_neg h52]
    exact ⟨some o, rfl, rfl⟩

/-- **The walk reads the datagram and nothing else.** -/
theorem parse_loop_eq (fuel i : ℕ) (o : Pointers) :
    ∃ r, parse_loop (p ++ stale) p.length fuel i o = .ok r ∧
      r.map (·.contents (p ++ stale)) = Dhcp.parse_loop fuel (p.drop i) (o.contents (p ++ stale)) := by
  induction fuel generalizing i o with
  | zero => exact ⟨none, rfl, rfl⟩
  | succ fuel ih =>
    by_cases hi : i < p.length
    · rw [parse_loop, if_pos hi, byte_eq p stale hi, ok_bind, List.drop_eq_getElem_cons hi,
        List.getD_eq_getElem _ _ hi]
      generalize p[i] = code
      by_cases hpad : code = 0
      · rw [if_pos hpad, hpad, parse_loop_pad]
        exact ih (i + 1) o
      by_cases hend : code = 255
      · rw [if_neg hpad, if_pos hend, hend, parse_loop_end]
        refine ⟨_, rfl, ?_⟩
        have htype : (o.contents (p ++ stale)).type = o.type := rfl
        rw [htype]
        split
        · rfl
        · rfl
      rw [if_neg hpad, if_neg hend]
      -- a code that is the last byte has no length: without this check the stale byte would be read
      by_cases hlast : i + 1 = p.length
      · rw [if_pos hlast, List.drop_eq_nil_of_le (le_of_eq hlast.symm),
          parse_loop_bare fuel _ ⟨hpad, hend⟩]
        exact ⟨none, rfl, rfl⟩
      have hi' : i + 1 < p.length := by omega
      rw [if_neg hlast, byte_eq p stale hi', ok_bind, minus_eq (by omega), ok_bind,
        List.drop_eq_getElem_cons hi', List.getD_eq_getElem _ _ hi',
        parse_loop_option fuel _ ⟨hpad, hend⟩, List.length_drop]
      generalize p[i + 1] = n
      by_cases hroom : n.toNat > p.length - (i + 2)
      · rw [if_pos hroom, if_pos hroom]
        exact ⟨none, rfl, rfl⟩
      rw [if_neg hroom, if_neg hroom]
      obtain ⟨r, hr, hsame⟩ := parse_option_eq p stale code (i := i + 2) (n := n.toNat) (by omega) o
      rw [hr, ok_bind, show i + 1 + 1 = i + 2 by omega, ← hsame]
      cases r with
      | none => exact ⟨none, rfl, rfl⟩
      | some o' =>
        obtain ⟨r, hr, hrest⟩ := ih (i + 2 + n.toNat) o'
        refine ⟨r, hr, ?_⟩
        rw [hrest, List.drop_drop]
        rfl
    · rw [parse_loop, if_neg hi, List.drop_eq_nil_of_le (by omega)]
      exact ⟨none, rfl, rfl⟩

end Agree

end Walk

/-! ## The language of the options -/

/-- A PAD, or an option with its data. -/
inductive Item
  | pad
  | entry (code : Byte) (data : List Byte) (hcode : code ≠ 0 ∧ code ≠ 255) (hdata : data.length ≤ 255)

/-- The bytes of an item. -/
def Item.source : Item → List Byte
  | .pad => [0]
  | .entry code data _ _ => option code data

/-- The data of an item, if its code is the one asked for. -/
def Item.data_of (code : Byte) : Item → Option (List Byte)
  | .pad => none
  | .entry code' data _ _ => if code' = code then some data else none

/-- The data of all options with a code. -/
def data_of (code : Byte) (items : List Item) : List (List Byte) := items.filterMap (Item.data_of code)

/-- At most one, and that one as described. -/
def Once (P : List Byte → Prop) (l : List (List Byte)) : Prop := l = [] ∨ ∃ data, l = [data] ∧ P data

/-- How often each option may occur so far, and with what data. -/
structure Admitted (items : List Item) : Prop where
  type : Once (fun data => ∃ type ≠ 0, data = [type]) (data_of 53 items)
  requested : Once (fun data => data.length = 4) (data_of 50 items)
  server : Once (fun data => data.length = 4) (data_of 54 items)
  client : Once (fun data => 2 ≤ data.length ∧ data.length ≤ client_id_max) (data_of 61 items)
  overload : data_of 52 items = []

/-- What the options say. -/
def options_of (items : List Item) : Options where
  type := ((data_of 53 items).head?.map fun data => data.getD 0 0).getD 0
  requested := (data_of 50 items).head?.map (ip4_at · 0)
  server := (data_of 54 items).head?.map (ip4_at · 0)
  client := (data_of 61 items).head?

/-- One item after the other. -/
def Item.parse (o : Options) : Item → Option Options
  | .pad => some o
  | .entry code data _ _ => parse_option code data o

/-- The loop over the source of items. -/
theorem parse_loop_items (items : List Item) (rest : List Byte) {fuel : ℕ} (hfuel : items.length < fuel)
    (o : Options) :
    parse_loop fuel (items.flatMap Item.source ++ 255 :: rest) o
      = (items.foldlM Item.parse o).bind fun o => if o.type ≠ 0 then some o else none := by
  induction items generalizing fuel o with
  | nil =>
    obtain ⟨fuel, rfl⟩ := Nat.exists_eq_add_of_lt hfuel
    exact parse_loop_end _ o rest
  | cons item items ih =>
    obtain ⟨fuel, rfl⟩ := Nat.exists_eq_add_of_lt hfuel
    rw [List.flatMap_cons, List.append_assoc, List.foldlM_cons]
    cases item with
    | pad =>
      change parse_loop _ (0 :: (items.flatMap Item.source ++ 255 :: rest)) o = _
      rw [parse_loop_pad, ih (by simp; omega)]
      rfl
    | entry code data hcode hdata =>
      have hn : (UInt8.ofNat data.length).toNat = data.length := by
        rw [UInt8.toNat_ofNat', Nat.mod_eq_of_lt (by omega)]
      change parse_loop _ (code :: UInt8.ofNat data.length
        :: (data ++ (items.flatMap Item.source ++ 255 :: rest))) o = _
      rw [parse_loop_option _ _ hcode, hn, if_neg (by rw [List.length_append]; omega), List.take_left,
        List.drop_left]
      change (parse_option code data o).bind _ = ((parse_option code data o).bind _).bind _
      rw [Option.bind_assoc]
      congr 1
      funext o'
      exact ih (by simp; omega) o'

theorem items_length_le (items : List Item) : items.length ≤ (items.flatMap Item.source).length := by
  induction items with
  | nil => exact le_refl 0
  | cons item items ih =>
    have hitem : 1 ≤ item.source.length := by
      cases item with
      | pad => exact le_refl 1
      | entry code data hcode hdata => exact Nat.succ_pos _
    rw [List.length_cons, List.flatMap_cons, List.length_append]
    omega

/-- What the loop accepts has a source. -/
theorem parse_loop_sound {fuel : ℕ} {l : List Byte} {o o' : Options}
    (h : parse_loop fuel l o = some o') :
    ∃ (items : List Item) (rest : List Byte),
      l = items.flatMap Item.source ++ 255 :: rest ∧ items.length < fuel := by
  induction fuel generalizing l o with
  | zero => cases h
  | succ fuel ih =>
    rcases l with _ | ⟨code, rest⟩
    · cases h
    by_cases hpad : code = 0
    · subst hpad
      rw [parse_loop_pad] at h
      obtain ⟨items, rest', rfl, hlen⟩ := ih h
      exact ⟨.pad :: items, rest', rfl, Nat.succ_lt_succ hlen⟩
    by_cases hend : code = 255
    · subst hend
      exact ⟨[], rest, rfl, Nat.succ_pos fuel⟩
    rcases rest with _ | ⟨n, rest⟩
    · rw [parse_loop_bare fuel o ⟨hpad, hend⟩] at h
      cases h
    rw [parse_loop_option fuel o ⟨hpad, hend⟩] at h
    by_cases hroom : n.toNat > rest.length
    · rw [if_pos hroom] at h
      cases h
    rw [if_neg hroom] at h
    obtain ⟨o1, -, h1⟩ := Option.bind_eq_some_iff.mp h
    obtain ⟨items, rest', hrest, hlen⟩ := ih h1
    have hn := n.toNat_lt
    have htake : (rest.take n.toNat).length = n.toNat := by
      rw [List.length_take]
      omega
    refine ⟨.entry code (rest.take n.toNat) ⟨hpad, hend⟩ (by omega) :: items, rest', ?_,
      Nat.succ_lt_succ hlen⟩
    change code :: n :: rest = code :: UInt8.ofNat (rest.take n.toNat).length
      :: ((rest.take n.toNat ++ items.flatMap Item.source) ++ 255 :: rest')
    rw [htake, UInt8.ofNat_toNat, List.append_assoc, ← hrest, List.take_append_drop]

/-! ### Item by item -/

theorem once_snoc {P : List Byte → Prop} {l : List (List Byte)} {data : List Byte} :
    Once P (l ++ [data]) ↔ l = [] ∧ P data := by
  constructor
  · rintro (h | ⟨data', h, hP⟩)
    · simp at h
    · rcases l with _ | ⟨x, l⟩
      · cases h
        exact ⟨rfl, hP⟩
      · simp at h
  · rintro ⟨rfl, hP⟩
    exact .inr ⟨data, rfl, hP⟩

theorem data_of_pad (c : Byte) (items : List Item) : data_of c (items ++ [.pad]) = data_of c items := by
  simp [data_of, Item.data_of]

section Entry

variable (items : List Item) {code : Byte} {data : List Byte} (hcode : code ≠ 0 ∧ code ≠ 255)
  (hdata : data.length ≤ 255)

theorem data_of_same : data_of code (items ++ [.entry code data hcode hdata]) = data_of code items ++ [data] := by
  simp [data_of, Item.data_of]

theorem data_of_other {c : Byte} (h : code ≠ c) :
    data_of c (items ++ [.entry code data hcode hdata]) = data_of c items := by
  simp [data_of, Item.data_of, h]

end Entry

theorem options_of_type {items : List Item} (h : Admitted items) :
    (options_of items).type = 0 ↔ data_of 53 items = [] := by
  rcases h.type with hnone | ⟨data, hone, type, htype, rfl⟩
  · simp [options_of, hnone]
  · simp [options_of, hone, htype]

section Snoc

variable {items : List Item} {code : Byte} {data : List Byte} {hcode : code ≠ 0 ∧ code ≠ 255}
  {hdata : data.length ≤ 255}

theorem once_data_of {c : Byte} {P : List Byte → Prop} :
    Once P (data_of c (items ++ [.entry code data hcode hdata])) ↔
      if code = c then data_of c items = [] ∧ P data else Once P (data_of c items) := by
  by_cases hc : code = c
  · subst hc
    rw [if_pos rfl, data_of_same, once_snoc]
  · rw [if_neg hc, data_of_other items hcode hdata hc]

theorem data_of_overload :
    data_of 52 (items ++ [.entry code data hcode hdata]) = [] ↔ code ≠ 52 ∧ data_of 52 items = [] := by
  by_cases hc : code = 52
  · subst hc
    rw [data_of_same]
    simp
  · rw [data_of_other items hcode hdata hc]
    exact ⟨fun h => ⟨hc, h⟩, fun h => h.2⟩

/-- A message that is admitted is admitted without its last item. -/
theorem admitted_snoc {item : Item} (h : Admitted (items ++ [item])) : Admitted items := by
  cases item with
  | pad =>
    refine ⟨?_, ?_, ?_, ?_, ?_⟩
    · exact data_of_pad 53 items ▸ h.type
    · exact data_of_pad 50 items ▸ h.requested
    · exact data_of_pad 54 items ▸ h.server
    · exact data_of_pad 61 items ▸ h.client
    · exact data_of_pad 52 items ▸ h.overload
  | entry code data hcode hdata =>
    have honce : ∀ (c : Byte) (P : List Byte → Prop),
        Once P (data_of c (items ++ [.entry code data hcode hdata])) → Once P (data_of c items) := by
      intro c P hP
      rw [once_data_of] at hP
      split at hP
      · exact .inl hP.1
      · exact hP
    exact ⟨honce 53 _ h.type, honce 50 _ h.requested, honce 54 _ h.server, honce 61 _ h.client,
      (data_of_overload.mp h.overload).2⟩

/-- Which option may follow. -/
theorem admitted_entry (h : Admitted items) :
    Admitted (items ++ [.entry code data hcode hdata]) ↔
      (code = 53 → data_of 53 items = [] ∧ ∃ type ≠ 0, data = [type]) ∧
      (code = 50 → data_of 50 items = [] ∧ data.length = 4) ∧
      (code = 54 → data_of 54 items = [] ∧ data.length = 4) ∧
      (code = 61 → data_of 61 items = [] ∧ 2 ≤ data.length ∧ data.length ≤ client_id_max) ∧
      code ≠ 52 := by
  have honce : ∀ (c : Byte) (P : List Byte → Prop), Once P (data_of c items) →
      (Once P (data_of c (items ++ [.entry code data hcode hdata])) ↔
        (code = c → data_of c items = [] ∧ P data)) := by
    intro c P hP
    rw [once_data_of]
    split
    · next hc => exact ⟨fun hone _ => hone, fun hone => hone hc⟩
    · next hc => exact ⟨fun _ hno => absurd hno hc, fun _ => hP⟩
  constructor
  · intro h'
    exact ⟨(honce 53 _ h.type).mp h'.type, (honce 50 _ h.requested).mp h'.requested,
      (honce 54 _ h.server).mp h'.server, (honce 61 _ h.client).mp h'.client,
      (data_of_overload.mp h'.overload).1⟩
  · rintro ⟨htype, hrequested, hserver, hclient, hoverload⟩
    exact ⟨(honce 53 _ h.type).mpr htype, (honce 50 _ h.requested).mpr hrequested,
      (honce 54 _ h.server).mpr hserver, (honce 61 _ h.client).mpr hclient,
      data_of_overload.mpr ⟨hoverload, h.overload⟩⟩

/-- A check of the switch against a condition. -/
theorem checked_iff {bad : Bool} {C : Prop} {o o1 o2 : Options} (hbad : bad = false ↔ C)
    (hsame : C → o2 = o1) : (if bad = true then none else some o1) = some o ↔ C ∧ o = o2 := by
  cases bad with
  | true =>
    rw [if_pos rfl]
    constructor
    · intro hno
      cases hno
    · rintro ⟨hC, -⟩
      cases hbad.mpr hC
  | false =>
    have hC := hbad.mp rfl
    rw [if_neg Bool.false_ne_true, Option.some.injEq, hsame hC]
    exact ⟨fun h => ⟨hC, h.symm⟩, fun h => h.2.symm⟩

theorem head_map_isSome {α : Type} (f : List Byte → α) (l : List (List Byte)) :
    (l.head?.map f).isSome = false ↔ l = [] := by
  cases l <;> simp

/-- **One more option**: what the switch accepts is what may follow. -/
theorem parse_entry (h : Admitted items) (o : Options) :
    parse_option code data (options_of items) = some o ↔
      Admitted (items ++ [.entry code data hcode hdata])
        ∧ o = options_of (items ++ [.entry code data hcode hdata]) := by
  have hother : ∀ {c : Byte}, code ≠ c → data_of c (items ++ [.entry code data hcode hdata]) = data_of c items :=
    fun hc => data_of_other items hcode hdata hc
  have hsame : data_of code (items ++ [.entry code data hcode hdata]) = data_of code items ++ [data] :=
    data_of_same items hcode hdata
  rw [admitted_entry h]
  unfold parse_option
  by_cases h53 : code = 53
  · subst h53
    rw [if_pos rfl]
    refine checked_iff ?_ ?_
    -- a type of zero would pass for one that is absent, so it is refused
    · have htype := options_of_type h
      rcases data with _ | ⟨type, _ | ⟨_, _⟩⟩ <;> simp [htype]
    · intro hC
      obtain ⟨hnil, -⟩ := hC.1 rfl
      simp [options_of, hsame, hnil, hother (show (53 : Byte) ≠ 50 by decide),
        hother (show (53 : Byte) ≠ 54 by decide), hother (show (53 : Byte) ≠ 61 by decide)]
  rw [if_neg h53]
  by_cases h50 : code = 50
  · subst h50
    rw [if_pos rfl]
    refine checked_iff ?_ ?_
    · have hfirst := head_map_isSome (ip4_at · 0) (data_of 50 items)
      simp only [Bool.or_eq_false_iff, decide_eq_false_iff_not, not_not]
      rw [options_of, hfirst]
      simp [and_comm]
    · intro hC
      obtain ⟨hnil, -⟩ := hC.2.1 rfl
      simp [options_of, hsame, hnil, hother (show (50 : Byte) ≠ 53 by decide),
        hother (show (50 : Byte) ≠ 54 by decide), hother (show (50 : Byte) ≠ 61 by decide)]
  rw [if_neg h50]
  by_cases h54 : code = 54
  · subst h54
    rw [if_pos rfl]
    refine checked_iff ?_ ?_
    · have hfirst := head_map_isSome (ip4_at · 0) (data_of 54 items)
      simp only [Bool.or_eq_false_iff, decide_eq_false_iff_not, not_not]
      rw [options_of, hfirst]
      simp [and_comm]
    · intro hC
      obtain ⟨hnil, -⟩ := hC.2.2.1 rfl
      simp [options_of, hsame, hnil, hother (show (54 : Byte) ≠ 53 by decide),
        hother (show (54 : Byte) ≠ 50 by decide), hother (show (54 : Byte) ≠ 61 by decide)]
  rw [if_neg h54]
  by_cases h61 : code = 61
  · subst h61
    rw [if_pos rfl]
    refine checked_iff ?_ ?_
    · have hfirst := head_map_isSome id (data_of 61 items)
      rw [Option.map_id, id] at hfirst
      simp only [Bool.or_eq_false_iff, decide_eq_false_iff_not, not_lt]
      rw [options_of, hfirst]
      simp [and_comm]
    · intro hC
      obtain ⟨hnil, -⟩ := hC.2.2.2.1 rfl
      simp [options_of, hsame, hnil, hother (show (61 : Byte) ≠ 53 by decide),
        hother (show (61 : Byte) ≠ 50 by decide), hother (show (61 : Byte) ≠ 54 by decide)]
  rw [if_neg h61]
  by_cases h52 : code = 52
  · subst h52
    simp
  have hunchanged : options_of (items ++ [.entry code data hcode hdata]) = options_of items := by
    rw [options_of, hother h53, hother h50, hother h54, hother h61, options_of]
  rw [if_neg h52, hunchanged, Option.some.injEq]
  constructor
  · intro ho
    exact ⟨⟨fun hno => absurd hno h53, fun hno => absurd hno h50, fun hno => absurd hno h54,
      fun hno => absurd hno h61, h52⟩, ho.symm⟩
  · rintro ⟨-, ho⟩
    exact ho.symm

end Snoc

/-- Exactly the admitted items are parsed, to what they say. -/
theorem parse_items_iff (items : List Item) (o : Options) :
    items.foldlM Item.parse {} = some o ↔ Admitted items ∧ o = options_of items := by
  induction items using List.reverseRecOn generalizing o with
  | nil =>
    constructor
    · rintro ⟨⟩
      exact ⟨⟨.inl rfl, .inl rfl, .inl rfl, .inl rfl, rfl⟩, rfl⟩
    · rintro ⟨-, rfl⟩
      rfl
  | append_singleton items item ih =>
    have hsnoc : (items ++ [item]).foldlM Item.parse {}
        = (items.foldlM Item.parse {}).bind fun o => item.parse o := by
      rw [List.foldlM_append]
      simp
    rw [hsnoc, Option.bind_eq_some_iff]
    have hitem : Admitted items → (Item.parse (options_of items) item = some o ↔
        Admitted (items ++ [item]) ∧ o = options_of (items ++ [item])) := by
      intro hadmitted
      cases item with
      | entry code data hcode hdata => exact parse_entry hadmitted o
      | pad =>
        have hpadded : Admitted (items ++ [.pad]) := by
          refine ⟨?_, ?_, ?_, ?_, ?_⟩ <;> rw [data_of_pad]
          · exact hadmitted.type
          · exact hadmitted.requested
          · exact hadmitted.server
          · exact hadmitted.client
          · exact hadmitted.overload
        simp only [Item.parse, options_of, data_of_pad, Option.some.injEq]
        exact ⟨fun ho => ⟨hpadded, ho.symm⟩, fun ho => ho.2.symm⟩
    constructor
    · rintro ⟨o', ho', h⟩
      obtain ⟨hadmitted, rfl⟩ := (ih o').mp ho'
      exact (hitem hadmitted).mp h
    · rintro ⟨hadmitted, ho⟩
      have hbefore := admitted_snoc hadmitted
      exact ⟨options_of items, (ih _).mpr ⟨hbefore, rfl⟩, (hitem hbefore).mpr ⟨hadmitted, ho⟩⟩

/-- **What `parse_options` accepts**, and what it makes of it. -/
theorem parse_options_iff (p : List Byte) (o : Options) :
    parse_options p = some o ↔
      ∃ (items : List Item) (rest : List Byte),
        p.drop options_offset = items.flatMap Item.source ++ 255 :: rest ∧ Admitted items ∧
          (data_of 53 items).length = 1 ∧ o = options_of items := by
  have hcount : ∀ items, Admitted items →
      ((options_of items).type ≠ 0 ↔ (data_of 53 items).length = 1) := by
    intro items h
    rw [ne_eq, options_of_type h]
    rcases h.type with hnone | ⟨data, hone, -⟩
    · simp [hnone]
    · simp [hone]
  constructor
  · intro h
    obtain ⟨items, rest, hsource, hlen⟩ := parse_loop_sound h
    rw [parse_options, hsource, parse_loop_items items rest hlen] at h
    obtain ⟨o', ho', h⟩ := Option.bind_eq_some_iff.mp h
    obtain ⟨hadmitted, rfl⟩ := (parse_items_iff items o').mp ho'
    by_cases htype : (options_of items).type ≠ 0
    · rw [if_pos htype] at h
      cases h
      exact ⟨items, rest, hsource, hadmitted, (hcount items hadmitted).mp htype, rfl⟩
    · rw [if_neg htype] at h
      cases h
  · rintro ⟨items, rest, hsource, hadmitted, hone, rfl⟩
    have hlen : items.length < p.length + 1 := by
      have hdrop := congrArg List.length hsource
      have hitems := items_length_le items
      rw [List.length_drop, List.length_append] at hdrop
      omega
    rw [parse_options, hsource, parse_loop_items items rest hlen,
      (parse_items_iff items _).mpr ⟨hadmitted, rfl⟩]
    exact if_pos ((hcount items hadmitted).mpr hone)

/-! ## The reply -/

theorem accepted_parses {d : Server} {a : Arrival} {p : List Byte} {o : Options}
    (h : accepted d a p = some o) : parse_options p = some o := by
  unfold accepted at h
  split at h
  · cases h
  split at h
  · cases h
  cases hparse : parse_options p with
  | none =>
    rw [hparse] at h
    cases h
  | some o' =>
    rw [hparse] at h
    simp only at h
    split at h
    · cases h
    · exact h

theorem client_length {p : List Byte} {o : Options} (h : parse_options p = some o) {id : List Byte}
    (hid : o.client = some id) : id.length ≤ client_id_max := by
  obtain ⟨items, -, -, hadmitted, -, rfl⟩ := (parse_options_iff p o).mp h
  have hclient : (data_of 61 items).head? = some id := hid
  rcases hadmitted.client with hnone | ⟨data, hone, -, hmax⟩
  · rw [hnone] at hclient
    cases hclient
  · rw [hone] at hclient
    cases hclient
    exact hmax

/-- A field behind the front of a packet, and one at its start. -/
theorem field_skip (front rest : List Byte) {k : ℕ} (hfront : front.length = k) (i n : ℕ) :
    field (front ++ rest) (k + i) n = field rest i n := by
  rw [field, ← hfront, ← List.drop_drop, List.drop_left, field]

theorem field_start (part rest : List Byte) {n : ℕ} (hpart : part.length = n) :
    field (part ++ rest) 0 n = part := by
  rw [field, List.drop_zero, ← hpart, List.take_left]

/-- What the answer to a request looks like. -/
structure ReplyTo (d : Server) (p : List Byte) (o : Options) (packet : List Byte) : Prop where
  size : 300 ≤ packet.length ∧ packet.length ≤ max_packet
  xid : field packet 4 4 = field p 4 4
  flags : field packet 10 2 = field p 10 2
  hardware : field packet 28 16 = field p 28 16
  options : ∃ n, packet.drop options_offset =
    option 53 [message_type packet] ++ option 54 d.ip.bytes
      ++ (if message_type packet = Response.nak.code then []
        else option 1 d.nm.bytes
          ++ (if o.type = 8 then [] else option32 51 600 ++ option32 58 300 ++ option32 59 525))
      ++ (match o.client with
        | some id => option 61 id
        | none => [])
      ++ 255 :: List.replicate n 0

section ReplyTo

variable (d : Server) {p : List Byte} (hp : options_offset + 4 ≤ p.length) (o : Options)
  (response : Response) (chosen : Option (Fin 8))

/-- Which replies give an address. -/
theorem decided_respond {d : Server} {now : ℕ} {p : List Byte} {o : Options} {response : Response}
    {chosen : Option (Fin 8)} (h : decided d now p o = .respond response chosen) :
    response = .nak ∨ o.type = 8 ∧ chosen = none ∨ o.type ≠ 8 ∧ chosen.isSome = true := by
  rcases decision_cases (walked d now) p o (scan now (client_of p o) d.lease).owned
    (scan now (client_of p o) d.lease).free_slot with h' | ⟨i, -, -, h'⟩ | ⟨i, -, -, h'⟩ | ⟨_, h'⟩ |
    ⟨htype, h'⟩ | ⟨i, htype, -, h'⟩ | ⟨i, -, htype, h'⟩
  · cases h'.symm.trans h
  · cases h'.symm.trans h
  · cases h'.symm.trans h
  · cases h'.symm.trans h
    exact .inl rfl
  · cases h'.symm.trans h
    exact .inr (.inl ⟨htype, rfl⟩)
  · cases h'.symm.trans h
    exact .inr (.inr ⟨by rw [htype]; decide, rfl⟩)
  · cases h'.symm.trans h
    exact .inr (.inr ⟨by rw [htype]; decide, rfl⟩)

include hp

/-- A reply repeats the transaction, the flags and the hardware address of its request. -/
theorem reply_echoes : field (reply d p o response chosen) 4 4 = field p 4 4 ∧
    field (reply d p o response chosen) 10 2 = field p 10 2 ∧
    field (reply d p o response chosen) 28 16 = field p 28 16 := by
  have hlen : options_offset + 4 = 244 := rfl
  have hxid : (field p 4 4).length = 4 := length_field (by omega)
  have hflags : (field p 10 2).length = 2 := length_field (by omega)
  have hhardware : (field p 28 16).length = 16 := length_field (by omega)
  have hfront := length_front hp response
  have hip : (yiaddr d response chosen).bytes.length = 4 := rfl
  have hserver : (List.replicate 8 (0 : Byte)).length = 8 := List.length_replicate
  unfold reply fixed_fields
  refine ⟨?_, ?_, ?_⟩
  · simp only [List.append_assoc]
    exact (field_skip [2, 1, 6, 0] _ (k := 4) rfl 0 4).trans (field_start _ _ hxid)
  · simp only [List.append_assoc]
    exact (field_skip [2, 1, 6, 0] _ (k := 4) rfl 6 2).trans ((field_skip _ _ hxid 2 2).trans
      ((field_skip [0, 0] _ (k := 2) rfl 0 2).trans (field_start _ _ hflags)))
  · rw [List.append_assoc]
    refine (field_skip _ _ hfront 12 16).trans ?_
    simp only [List.append_assoc]
    exact (field_skip _ _ hip 8 16).trans ((field_skip _ _ hserver 0 16).trans
      (field_start _ _ hhardware))

/-- Every reply has at least the size of a BOOTP message, and fits the buffer. -/
theorem reply_size (hclient : ∀ id, o.client = some id → id.length ≤ client_id_max) :
    300 ≤ (reply d p o response chosen).length ∧ (reply d p o response chosen).length ≤ max_packet := by
  have hfixed := length_fixed_fields d hp response chosen
  have hoptions : (reply_options d o response chosen).length ≤ 68 := by
    have hlease : (if response ≠ .nak then
        option 1 d.nm.bytes ++ (if chosen.isSome then
          option32 51 (lease_ms / 1000) ++ option32 58 (lease_ms / 2000)
            ++ option32 59 (lease_ms / 1000 * 7 / 8)
        else [])
      else []).length ≤ 24 := by
      split
      · split
        · exact le_of_eq rfl
        · exact (by decide : 6 ≤ 24)
      · exact Nat.zero_le 24
    have h53 : (option 53 [response.code]).length = 3 := rfl
    have h54 : (option 54 d.ip.bytes).length = 6 := rfl
    rw [reply_options, List.length_append, List.length_append, List.length_append, List.length_append,
      h53, h54, List.length_singleton]
    cases ho : o.client with
    | none =>
      rw [List.length_nil]
      omega
    | some id =>
      have hmax : id.length ≤ 32 := hclient id ho
      have hid : (option 61 id).length = id.length + 2 := rfl
      simp only [hid]
      omega
  have hmax : max_packet = 548 := rfl
  have hoffset : options_offset = 240 := rfl
  unfold reply
  rw [List.length_append, List.length_append, List.length_replicate, hfixed]
  omega

/-- The options of a reply, by its message type and the type of the request. -/
theorem reply_area (hgives : response = .nak ∨ o.type = 8 ∧ chosen = none ∨ o.type ≠ 8 ∧ chosen.isSome = true) :
    ∃ n, (reply d p o response chosen).drop options_offset =
      option 53 [response.code] ++ option 54 d.ip.bytes
        ++ (if response.code = Response.nak.code then []
          else option 1 d.nm.bytes
            ++ (if o.type = 8 then [] else option32 51 600 ++ option32 58 300 ++ option32 59 525))
        ++ (match o.client with
          | some id => option 61 id
          | none => [])
        ++ 255 :: List.replicate n 0 := by
  refine ⟨300 - (options_offset + (reply_options d o response chosen).length), ?_⟩
  have hlease : (if response ≠ .nak then
      option 1 d.nm.bytes ++ (if chosen.isSome then
        option32 51 (lease_ms / 1000) ++ option32 58 (lease_ms / 2000)
          ++ option32 59 (lease_ms / 1000 * 7 / 8)
      else [])
    else []) = (if response.code = Response.nak.code then []
      else option 1 d.nm.bytes
        ++ (if o.type = 8 then [] else option32 51 600 ++ option32 58 300 ++ option32 59 525)) := by
    by_cases hnak : response = .nak
    · rw [if_neg (not_not.mpr hnak), if_pos (congrArg Response.code hnak)]
    · rw [if_pos hnak, if_neg (fun hcode => hnak (Response.code_inj hcode))]
      rcases hgives with hno | ⟨htype, rfl⟩ | ⟨htype, hsome⟩
      · exact absurd hno hnak
      · rw [if_pos htype, if_neg (by decide)]
      · rw [if_neg htype, if_pos hsome]
        rfl
  rw [reply, List.drop_append_of_le_length (le_of_eq (length_fixed_fields d hp response chosen).symm),
    List.drop_of_length_le (le_of_eq (length_fixed_fields d hp response chosen)), List.nil_append,
    ← hlease]
  generalize 300 - (options_offset + (reply_options d o response chosen).length) = n
  rw [reply_options, List.append_assoc _ [255]]
  rfl

end ReplyTo

/-- **Options are read exactly, and replies are minimal.** -/
theorem options_and_replies_exact (p stale : List Byte) (d : Server) (now : ℕ) (a : Arrival) :
    (∃ r, Walk.parse_options (p ++ stale) p.length = .ok r ∧
      r.map (·.contents (p ++ stale)) = parse_options p) ∧
    (∀ o, parse_options p = some o ↔
      ∃ (items : List Item) (rest : List Byte),
        p.drop options_offset = items.flatMap Item.source ++ 255 :: rest ∧ Admitted items ∧
          (data_of 53 items).length = 1 ∧ o = options_of items) ∧
    ∀ client packet dest,
      Event.sent client packet dest ∈ (receive d now { a with datagram := some p }).2 →
        ∃ o, parse_options p = some o ∧ ReplyTo d p o packet := by
  refine ⟨?_, parse_options_iff p, ?_⟩
  · exact Walk.parse_loop_eq p stale (p.length + 1) options_offset {}
  · intro client packet dest hsent
    set b : Arrival := { a with datagram := some p } with hb
    cases ho : accepted d b p with
    | none =>
      rw [receive_refused d now p rfl ho] at hsent
      cases hsent
    | some o =>
      have hp := accepted_length ho
      have hparse := accepted_parses ho
      rw [receive_accepted d now p o rfl ho] at hsent
      obtain ⟨response, chosen, hdecided, rfl, -⟩ := act_sent _ _ _ _ _ _ hsent
      obtain ⟨hxid, hflags, hhardware⟩ := reply_echoes (walked d now) hp o response chosen
      refine ⟨o, hparse, reply_size _ hp o response chosen fun id hid => client_length hparse hid,
        hxid, hflags, hhardware, ?_⟩
      rw [message_type_reply _ hp]
      exact reply_area (walked d now) hp o response chosen (decided_respond hdecided)

end Firmingo.Dhcp
