import Restaking.Json.Reader
import Restaking.Proofs.Octets
import Mathlib.Tactic.SplitIfs

/-!
# JSON texts read back

What is written for a value is read as that value (`ofBytes?_render`), provided that its scalars are
rows of characters that neither end a scalar nor begin another value (`Regular`). Numerals, truth
values and the null are such rows.

The induction is over the value, for all that may follow it: nothing, or a symbol that ends a scalar
(`ReadsBack`). A list is read with a comma to spare; its first item, which has none, takes it up, so
the list is not taken for one with a comma before every item.
-/

namespace Restaking.Json

open Utf8 (Symbol)

/-! ## Regular values -/

/-- A character that stands for itself wherever it is in a scalar. -/
def isPlain (c : Char) : Bool :=
  !isBlank (some c) && !endsScalar (some c) && c ≠ '"' && c ≠ '[' && c ≠ '\x7b'

theorem isPlain_iff {c : Char} :
    isPlain c = true ↔
      isBlank (some c) = false ∧ endsScalar (some c) = false ∧ c ≠ '"' ∧ c ≠ '[' ∧ c ≠ '\x7b' := by
  simp [isPlain, and_assoc]

/-- Values whose scalars are plain, that have a comma between any two list items and nowhere else,
and that nest at most so many lists and objects. -/
inductive Regular : Nat → Json → Prop
  | scalar {n : Nat} {text : String} (hne : text.toList ≠ [])
      (h : ∀ c ∈ text.toList, isPlain c = true) : Regular n (.scalar text)
  | str {n : Nat} (text : String) : Regular n (.str text)
  | arr {n : Nat} {items : List Json} (h : ∀ v ∈ items, Regular n v) : Regular (n + 1) (.arr items)
  | obj {n : Nat} {members : List (String × Json)} (h : ∀ m ∈ members, Regular n m.2) :
      Regular (n + 1) (.obj members)

/-- More nesting may be allowed for than there is. -/
theorem Regular.mono {m n : Nat} {v : Json} (h : Regular m v) (hle : m ≤ n) : Regular n v := by
  induction h generalizing n with
  | scalar hne h => exact .scalar hne h
  | str text => exact .str text
  | arr _ ih =>
    obtain ⟨n, rfl⟩ : ∃ k, n = k + 1 := ⟨n - 1, by omega⟩
    exact .arr fun v hv => ih v hv (by omega)
  | obj _ ih =>
    obtain ⟨n, rfl⟩ : ∃ k, n = k + 1 := ⟨n - 1, by omega⟩
    exact .obj fun m hm => ih m hm (by omega)

theorem itemDepth_le {items : List Json} {n : Nat} (h : ∀ v ∈ items, v.depth ≤ n) :
    itemDepth items ≤ n := by
  induction items with
  | nil => exact Nat.zero_le _
  | cons v rest ih =>
    obtain ⟨hv, hrest⟩ := List.forall_mem_cons.1 h
    rw [itemDepth]
    exact Nat.max_le.2 ⟨hv, ih hrest⟩

theorem memberDepth_le {members : List (String × Json)} {n : Nat}
    (h : ∀ m ∈ members, m.2.depth ≤ n) : memberDepth members ≤ n := by
  induction members with
  | nil => exact Nat.zero_le _
  | cons m rest ih =>
    obtain ⟨hm, hrest⟩ := List.forall_mem_cons.1 h
    rw [memberDepth]
    exact Nat.max_le.2 ⟨hm, ih hrest⟩

theorem Regular.depth_le {n : Nat} {v : Json} (h : Regular n v) : v.depth ≤ n := by
  induction h with
  | scalar => exact Nat.zero_le _
  | str => exact Nat.zero_le _
  | arr _ ih =>
    rw [depth]
    exact Nat.succ_le_succ (itemDepth_le ih)
  | obj _ ih =>
    rw [depth]
    exact Nat.succ_le_succ (memberDepth_le ih)

/-! ## Strings -/

theorem skipBlanks_cons {s : Symbol} (h : isBlank s = false) (rest : List Symbol) :
    skipBlanks (s :: rest) = s :: rest :=
  List.dropWhile_cons_of_neg (by rw [h]; decide)

/-- The unit that a character of a string is written as. -/
def unitOf (c : Char) : TextUnit :=
  if c = '"' ∨ c = '\\' ∨ c.toNat < 0x20 then .escaped c else .raw c

theorem hexValue?_upperHexDigit {n : Nat} (h : n < 16) :
    hexValue? (some (upperHexDigit n)) = some n := by
  have hall : ∀ k : Fin 16, hexValue? (some (upperHexDigit k)) = some k.val := by decide
  exact hall ⟨n, h⟩

theorem numericEscape?_control {c : Char} (h : c.toNat < 0x20) :
    numericEscape? (some '0') (some '0') (some (upperHexDigit (c.toNat / 16)))
      (some (upperHexDigit (c.toNat % 16))) = some (.escaped c) := by
  have hzero : hexValue? (some '0') = some 0 := by decide
  have hcode : 4096 * 0 + 256 * 0 + 16 * (c.toNat / 16) + c.toNat % 16 = c.toNat := by omega
  unfold numericEscape?
  rw [hzero, hexValue?_upperHexDigit (by omega), hexValue?_upperHexDigit (by omega)]
  simp only [Option.bind_eq_bind, Option.bind_some, hcode]
  rw [if_neg (by omega), Char.ofNat_toNat]
  rfl

/-- A character is written by its short escape, by its code, or as it is. -/
theorem escape_cases (c : Char) :
    (∃ s, escape c = ['\\', s] ∧ shortEscape? (some s) = some c ∧ unitOf c = .escaped c) ∨
    (escape c = ['\\', 'u', '0', '0', upperHexDigit (c.toNat / 16), upperHexDigit (c.toNat % 16)] ∧
      c.toNat < 0x20 ∧ unitOf c = .escaped c) ∨
    (escape c = [c] ∧ (c ≠ '"' ∧ c ≠ '\\') ∧ unitOf c = .raw c) := by
  unfold escape
  split_ifs with hquote hslash hb ht hn hf hr hcontrol
  case neg => exact .inr (.inr ⟨rfl, ⟨hquote, hslash⟩, if_neg (by simp [hquote, hslash, hcontrol])⟩)
  rotate_right
  · exact .inr (.inl ⟨rfl, hcontrol, if_pos (.inr (.inr hcontrol))⟩)
  -- the other characters are single ones, each with a short escape
  all_goals
    subst c
    exact .inl ⟨_, rfl, rfl, rfl⟩

theorem readUnits_short {s c : Char} (h : shortEscape? (some s) = some c) (input : List Symbol) :
    readUnits (some '\\' :: some s :: input) =
      (readUnits input).map (Prod.map (.escaped c :: ·) id) := by
  have hs : s ≠ 'u' := by
    rintro rfl
    cases h
  rw [readUnits]
  · rw [h, Option.map_eq_bind]
    rfl
  · rintro a b c d rest ⟨⟩
    exact absurd rfl hs

theorem readUnits_raw {c : Char} (hquote : c ≠ '"') (hslash : c ≠ '\\') (input : List Symbol) :
    readUnits (some c :: input) = (readUnits input).map (Prod.map (.raw c :: ·) id) := by
  rw [readUnits, Option.map_eq_bind]
  · rfl
  all_goals simp_all

/-- What is written for one character is read as one unit. -/
theorem readUnits_escape (c : Char) (input : List Symbol) :
    readUnits ((escape c).map some ++ input) =
      (readUnits input).map (Prod.map (unitOf c :: ·) id) := by
  rcases escape_cases c with ⟨s, he, hs, hu⟩ | ⟨he, hc, hu⟩ | ⟨he, ⟨hquote, hslash⟩, hu⟩
  · rw [he, hu]
    exact readUnits_short hs input
  · rw [he, hu, Option.map_eq_bind]
    simp only [List.map_cons, List.map_nil, List.cons_append, List.nil_append]
    rw [readUnits, numericEscape?_control hc]
    rfl
  · rw [he, hu]
    exact readUnits_raw hquote hslash input

/-- The content of a string is read up to the quote that closes it. -/
theorem readUnits_quoted (cs : List Char) (rest : List Symbol) :
    readUnits ((cs.flatMap escape).map some ++ some '"' :: rest) = some (cs.map unitOf, rest) := by
  induction cs with
  | nil => rfl
  | cons c cs ih =>
    rw [List.flatMap_cons, List.map_append, List.append_assoc, readUnits_escape, ih]
    rfl

theorem joinUnits_cons (c : Char) (units : List TextUnit) :
    joinUnits none (unitOf c :: units) = (joinUnits none units).map (c :: ·) := by
  unfold unitOf
  split
  · rw [joinUnits]
  · rw [joinUnits]

theorem joinUnits_unitOf (cs : List Char) : joinUnits none (cs.map unitOf) = some cs := by
  induction cs with
  | nil => rfl
  | cons c cs ih =>
    rw [List.map_cons, joinUnits_cons, ih]
    rfl

theorem not_isRawControl_unitOf (c : Char) : (unitOf c).isRawControl = false := by
  unfold unitOf
  split
  case isTrue => rfl
  case isFalse h =>
    have hc : ¬c.toNat < 0x20 := fun hc => h (.inr (.inr hc))
    exact decide_eq_false hc

theorem textOfUnits?_unitOf (text : String) :
    textOfUnits? (text.toList.map unitOf) = some text := by
  have hraw : (text.toList.map unitOf).any TextUnit.isRawControl = false := by
    rw [List.any_map, List.any_eq_false]
    intro c _
    rw [Function.comp_apply, not_isRawControl_unitOf]
    decide
  unfold textOfUnits?
  rw [hraw, Bool.and_false, if_neg (by decide), joinUnits_unitOf]
  exact congrArg some String.ofList_toList

/-- A string is read back. -/
theorem readText_quoted (text : String) (rest : List Symbol) :
    readText ((text.toList.flatMap escape).map some ++ some '"' :: rest) = some (text, rest) := by
  unfold readText
  rw [readUnits_quoted]
  simp only [Option.bind_eq_bind, Option.bind_some, textOfUnits?_unitOf]
  rfl

/-- A name is read up to the colon after it. -/
theorem readName_quote (name : String) (rest : List Symbol) :
    readName ((quote name).map some ++ some ':' :: rest) = some (name, rest) := by
  unfold readName quote
  rw [List.map_cons, List.cons_append, skipBlanks_cons (by decide), List.map_append,
    List.append_assoc]
  change (readText ((name.toList.flatMap escape).map some ++ some '"' :: some ':' :: rest) >>= _) =
    some (name, rest)
  rw [readText_quoted, Option.bind_eq_bind, Option.bind_some]
  dsimp only
  rw [skipBlanks_cons (by decide)]
  rfl

/-! ## Steps of the reader -/

section Steps

variable {fuel : Nat} {input rest rest' : List Symbol} {v : Json} {items : List Json}
  {name : String} {members : List (String × Json)}

theorem readItems_comma {spare left : Bool} (hv : readValue fuel input = some (v, rest))
    (hitems : readItems fuel spare rest = some (items, left, rest')) :
    readItems (fuel + 1) spare (some ',' :: input) = some (v :: items, left, rest') := by
  change (readValue fuel input >>= _) = _
  rw [hv]
  change (readItems fuel spare rest >>= _) = _
  rw [hitems]
  rfl

theorem readItems_bare {s : Symbol} {left : Bool} (hblank : isBlank s = false)
    (hstop : endsScalar s = false) (hv : readValue fuel (s :: input) = some (v, rest))
    (hitems : readItems fuel false rest = some (items, left, rest')) :
    readItems (fuel + 1) true (s :: input) = some (v :: items, left, rest') := by
  rw [readItems, skipBlanks_cons hblank]
  split
  case h_1 heq =>
    rw [(List.cons.inj heq).1] at hstop
    cases hstop
  case h_2 heq =>
    rw [(List.cons.inj heq).1] at hstop
    cases hstop
  case h_3 =>
    rw [if_pos rfl, hv]
    change (readItems fuel false rest >>= _) = _
    rw [hitems]
    rfl

theorem readMembers_last (hname : readName input = some (name, rest))
    (hv : readValue fuel rest = some (v, some '\x7d' :: rest')) :
    readMembers (fuel + 1) input = some ([(name, v)], rest') := by
  rw [readMembers, hname]
  change (readValue fuel rest >>= _) = _
  rw [hv]
  rfl

theorem readMembers_comma {after : List Symbol} (hname : readName input = some (name, rest))
    (hv : readValue fuel rest = some (v, some ',' :: rest'))
    (hmembers : readMembers fuel rest' = some (members, after)) :
    readMembers (fuel + 1) input = some ((name, v) :: members, after) := by
  rw [readMembers, hname]
  change (readValue fuel rest >>= _) = _
  rw [hv]
  change (readMembers fuel rest' >>= _) = _
  rw [hmembers]
  rfl

theorem readValue_str {text : String} (htext : readText input = some (text, rest)) :
    readValue (fuel + 1) (some '"' :: input) = some (.str text, rest) := by
  change (readText input >>= _) = _
  rw [htext]
  rfl

theorem readValue_arr {spare : Bool}
    (hitems : readItems fuel true input = some (items, spare, rest))
    (hspare : (spare && !items.isEmpty) = false) :
    readValue (fuel + 1) (some '[' :: input) = some (.arr items, rest) := by
  change (readItems fuel true input >>= _) = _
  rw [hitems, Option.bind_eq_bind, Option.bind_some]
  change some (if (spare && !items.isEmpty) = true then Json.loose items else .arr items, rest) = _
  rw [hspare, if_neg (by decide)]

theorem readValue_obj (hmembers : readMembers fuel (some '"' :: input) = some (members, rest)) :
    readValue (fuel + 1) (some '\x7b' :: some '"' :: input) = some (.obj members, rest) := by
  change (readMembers fuel (some '"' :: input) >>= _) = _
  rw [hmembers]
  rfl

theorem readValue_scalar {c : Char} (hplain : isPlain c = true)
    (hscalar : readScalar (some c :: input) = some (v, rest)) :
    readValue (fuel + 1) (some c :: input) = some (v, rest) := by
  obtain ⟨hblank, _, hquote, hbracket, hbrace⟩ := isPlain_iff.1 hplain
  rw [readValue, skipBlanks_cons hblank]
  split
  case h_1 heq => exact absurd (Option.some.inj (List.cons.inj heq).1) hquote
  case h_2 heq => exact absurd (Option.some.inj (List.cons.inj heq).1) hbracket
  case h_3 heq => exact absurd (Option.some.inj (List.cons.inj heq).1) hbrace
  case h_4 => exact hscalar

end Steps

/-! ## Values -/

/-- Nothing, or a symbol that ends a scalar. -/
def Stops (rest : List Symbol) : Prop :=
  ∀ s ∈ rest.head?, endsScalar s = true

/-- A value is read where its characters stand, with fuel for twice as many symbols. -/
def ReadsBack (v : Json) : Prop :=
  ∀ (fuel : Nat) (rest : List Symbol), 2 * v.chars.length ≤ fuel → Stops rest →
    readValue fuel (v.chars.map some ++ rest) = some (v, rest)

/-- The first character of a value is neither a blank nor the end of a scalar. -/
theorem Regular.chars_cons {n : Nat} {v : Json} (h : Regular n v) :
    ∃ c cs, v.chars = c :: cs ∧ isBlank (some c) = false ∧ endsScalar (some c) = false := by
  cases h with
  | @scalar _ text hne h =>
    rw [chars]
    cases hcs : text.toList with
    | nil => exact absurd hcs hne
    | cons c cs =>
      obtain ⟨hblank, hstop, _⟩ := isPlain_iff.1 (h c (hcs ▸ List.mem_cons_self))
      exact ⟨c, cs, rfl, hblank, hstop⟩
  | str text => exact ⟨_, _, rfl, by decide, by decide⟩
  | arr h => exact ⟨_, _, by rw [chars], by decide, by decide⟩
  | obj h => exact ⟨_, _, by rw [chars], by decide, by decide⟩

theorem Stops.takeWhile_eq_nil {rest : List Symbol} (h : Stops rest) :
    rest.takeWhile (!endsScalar ·) = [] := by
  cases rest with
  | nil => rfl
  | cons s tail => exact List.takeWhile_cons_of_neg (by rw [h s rfl]; decide)

theorem Stops.dropWhile_eq_self {rest : List Symbol} (h : Stops rest) :
    rest.dropWhile (!endsScalar ·) = rest := by
  cases rest with
  | nil => rfl
  | cons s tail => exact List.dropWhile_cons_of_neg (by rw [h s rfl]; decide)

/-- No blank is taken off the end of a row of plain characters. -/
theorem dropWhile_isBlank_reverse {cs : List Char} (h : ∀ c ∈ cs, isPlain c = true) :
    (cs.map some).reverse.dropWhile isBlank = (cs.map some).reverse := by
  cases hlast : (cs.map some).reverse with
  | nil => rfl
  | cons s tail =>
    have hs : s ∈ cs.map some := List.mem_reverse.1 (hlast ▸ List.mem_cons_self)
    obtain ⟨c, hc, rfl⟩ := List.mem_map.1 hs
    exact List.dropWhile_cons_of_neg (by rw [(isPlain_iff.1 (h c hc)).1]; decide)

/-- A scalar is read up to what stops it. -/
theorem readScalar_text {text : String} (hne : text.toList ≠ [])
    (h : ∀ c ∈ text.toList, isPlain c = true) {rest : List Symbol} (hrest : Stops rest) :
    readScalar (text.toList.map some ++ rest) = some (.scalar text, rest) := by
  have hbody : ∀ s ∈ text.toList.map some, (!endsScalar s) = true := by
    intro s hs
    obtain ⟨c, hc, rfl⟩ := List.mem_map.1 hs
    rw [(isPlain_iff.1 (h c hc)).2.1]
    rfl
  have htext : (text.toList.map some).map (·.getD '\ufffd') = text.toList := by
    rw [List.map_map]
    exact List.map_id _
  unfold readScalar
  rw [List.takeWhile_append_of_pos hbody, hrest.takeWhile_eq_nil, List.append_nil,
    List.dropWhile_append_of_pos hbody, hrest.dropWhile_eq_self]
  split
  case h_1 hnil => exact absurd (List.map_eq_nil_iff.1 hnil) hne
  case h_2 =>
    dsimp only
    rw [dropWhile_isBlank_reverse h, List.reverse_reverse, htext, String.ofList_toList]

theorem stops_cons {s : Symbol} (h : endsScalar s = true) (rest : List Symbol) :
    Stops (s :: rest) := by
  rintro t ⟨⟩
  exact h

theorem readsBack_scalar {text : String} (hne : text.toList ≠ [])
    (h : ∀ c ∈ text.toList, isPlain c = true) : ReadsBack (.scalar text) := by
  intro fuel rest hfuel hrest
  have hscalar := readScalar_text hne h hrest
  rw [chars] at hfuel ⊢
  cases hcs : text.toList with
  | nil => exact absurd hcs hne
  | cons c cs =>
    rw [hcs, List.length_cons] at hfuel
    rw [hcs, List.map_cons, List.cons_append] at hscalar
    obtain ⟨fuel, rfl⟩ : ∃ k, fuel = k + 1 := ⟨fuel - 1, by omega⟩
    exact readValue_scalar (h c (hcs ▸ List.mem_cons_self)) hscalar

theorem readsBack_str (text : String) : ReadsBack (.str text) := by
  intro fuel rest hfuel _
  rw [chars, quote, List.length_cons] at hfuel
  rw [chars, quote, List.map_cons, List.cons_append, List.map_append, List.append_assoc]
  obtain ⟨fuel, rfl⟩ : ∃ k, fuel = k + 1 := ⟨fuel - 1, by omega⟩
  exact readValue_str (readText_quoted text rest)

/-! ## Lists -/

theorem stops_further (items : List Json) (rest : List Symbol) :
    Stops ((furtherChars items).map some ++ some ']' :: rest) := by
  cases items with
  | nil => exact stops_cons (by decide) _
  | cons v vs =>
    rw [furtherChars, List.map_cons, List.cons_append]
    exact stops_cons (by decide) _

/-- Items after a comma each are read, and the comma to spare is left. -/
theorem readItems_further {items : List Json} (h : ∀ v ∈ items, ReadsBack v) {fuel : Nat}
    (hfuel : 2 * (furtherChars items).length + 1 ≤ fuel) (spare : Bool) (rest : List Symbol) :
    readItems fuel spare ((furtherChars items).map some ++ some ']' :: rest) =
      some (items, spare, rest) := by
  induction items generalizing fuel with
  | nil =>
    obtain ⟨fuel, rfl⟩ : ∃ k, fuel = k + 1 := ⟨fuel - 1, by omega⟩
    rfl
  | cons v vs ih =>
    obtain ⟨hv, hvs⟩ := List.forall_mem_cons.1 h
    rw [furtherChars, List.length_cons, List.length_append] at hfuel
    obtain ⟨fuel, rfl⟩ : ∃ k, fuel = k + 1 := ⟨fuel - 1, by omega⟩
    rw [furtherChars, List.map_cons, List.cons_append, List.map_append, List.append_assoc]
    exact readItems_comma (hv fuel _ (by omega) (stops_further vs rest)) (ih hvs (by omega))

/-- The first item takes up the comma to spare. -/
theorem readItems_first {n : Nat} {v : Json} {vs : List Json} (hregular : Regular n v)
    (hv : ReadsBack v) (hvs : ∀ w ∈ vs, ReadsBack w) {fuel : Nat}
    (hfuel : 2 * (itemChars (v :: vs)).length + 1 ≤ fuel) (rest : List Symbol) :
    readItems fuel true ((itemChars (v :: vs)).map some ++ some ']' :: rest) =
      some (v :: vs, false, rest) := by
  obtain ⟨c, cs, hcs, hblank, hstop⟩ := hregular.chars_cons
  have hlength : 0 < v.chars.length := by
    rw [hcs]
    exact Nat.succ_pos _
  rw [itemChars, List.length_append] at hfuel
  obtain ⟨fuel, rfl⟩ : ∃ k, fuel = k + 1 := ⟨fuel - 1, by omega⟩
  have hread := hv fuel _ (by omega) (stops_further vs rest)
  rw [itemChars, List.map_append, List.append_assoc]
  rw [hcs, List.map_cons, List.cons_append] at hread ⊢
  exact readItems_bare hblank hstop hread (readItems_further hvs (by omega) false rest)

theorem readsBack_arr {n : Nat} {items : List Json} (hregular : ∀ v ∈ items, Regular n v)
    (h : ∀ v ∈ items, ReadsBack v) : ReadsBack (.arr items) := by
  intro fuel rest hfuel _
  rw [chars, List.length_cons, List.length_append] at hfuel
  rw [chars, List.map_cons, List.cons_append, List.map_append, List.append_assoc]
  obtain ⟨fuel, rfl⟩ : ∃ k, fuel = k + 1 := ⟨fuel - 1, by omega⟩
  cases items with
  | nil =>
    have hfuel : 2 * (furtherChars []).length + 1 ≤ fuel := by
      rw [furtherChars, List.length_nil]
      omega
    exact readValue_arr (readItems_further h hfuel true rest) rfl
  | cons v vs =>
    obtain ⟨hv, hvs⟩ := List.forall_mem_cons.1 h
    have hfuel : 2 * (itemChars (v :: vs)).length + 1 ≤ fuel := by omega
    exact readValue_arr (readItems_first (hregular v List.mem_cons_self) hv hvs hfuel rest) rfl

/-! ## Objects -/

/-- What is written for one or more members is read up to the closing brace. -/
theorem readMembers_chars {members : List (String × Json)} (hne : members ≠ [])
    (h : ∀ m ∈ members, ReadsBack m.2) {fuel : Nat}
    (hfuel : 2 * (memberChars members).length ≤ fuel) (rest : List Symbol) :
    readMembers fuel ((memberChars members).map some ++ some '\x7d' :: rest) =
      some (members, rest) := by
  induction members generalizing fuel with
  | nil => exact absurd rfl hne
  | cons m ms ih =>
    obtain ⟨name, v⟩ := m
    obtain ⟨hv, hms⟩ := List.forall_mem_cons.1 h
    change ReadsBack v at hv
    cases ms with
    | nil =>
      rw [memberChars, List.length_append, List.length_cons] at hfuel
      obtain ⟨fuel, rfl⟩ : ∃ k, fuel = k + 1 := ⟨fuel - 1, by omega⟩
      rw [memberChars, List.map_append, List.append_assoc, List.map_cons, List.cons_append]
      exact readMembers_last (readName_quote name _)
        (hv fuel _ (by omega) (stops_cons (by decide) rest))
    | cons m' ms' =>
      rw [memberChars, List.length_append, List.length_cons, List.length_append,
        List.length_cons] at hfuel
      obtain ⟨fuel, rfl⟩ : ∃ k, fuel = k + 1 := ⟨fuel - 1, by omega⟩
      rw [memberChars, List.map_append, List.append_assoc, List.map_cons, List.cons_append,
        List.map_append, List.append_assoc, List.map_cons, List.cons_append]
      exact readMembers_comma (readName_quote name _)
        (hv fuel _ (by omega) (stops_cons (by decide) _))
        (ih (List.cons_ne_nil _ _) hms (by omega))

/-- The characters of one or more members begin with a quote. -/
theorem memberChars_cons (m : String × Json) (ms : List (String × Json)) :
    ∃ cs, memberChars (m :: ms) = '"' :: cs := by
  cases ms with
  | nil => exact ⟨_, by rw [memberChars]; rfl⟩
  | cons m' ms' => exact ⟨_, by rw [memberChars]; rfl⟩

theorem readsBack_obj {members : List (String × Json)} (h : ∀ m ∈ members, ReadsBack m.2) :
    ReadsBack (.obj members) := by
  intro fuel rest hfuel _
  rw [chars, List.length_cons, List.length_append] at hfuel
  rw [chars, List.map_cons, List.cons_append, List.map_append, List.append_assoc]
  obtain ⟨fuel, rfl⟩ : ∃ k, fuel = k + 1 := ⟨fuel - 1, by omega⟩
  cases members with
  | nil => rfl
  | cons m ms =>
    have hfuel : 2 * (memberChars (m :: ms)).length ≤ fuel := by omega
    have hmembers := readMembers_chars (List.cons_ne_nil m ms) h hfuel rest
    obtain ⟨cs, hcs⟩ := memberChars_cons m ms
    rw [hcs, List.map_cons, List.cons_append] at hmembers ⊢
    exact readValue_obj hmembers

/-! ## Messages -/

theorem Regular.readsBack {n : Nat} {v : Json} (h : Regular n v) : ReadsBack v := by
  induction h with
  | scalar hne h => exact readsBack_scalar hne h
  | str text => exact readsBack_str text
  | arr h ih => exact readsBack_arr h ih
  | obj _ ih => exact readsBack_obj ih

/-- The message that a regular value is written as is read as that value. -/
theorem ofBytes?_render {n : Nat} {v : Json} (h : Regular n v) (hn : n ≤ maxDepth) :
    ofBytes? (Utf8.encode v.render) = some v := by
  have hread := h.readsBack (2 * (v.chars.map some).length + 2) [] (by
    rw [List.length_map]
    omega) (fun s hs => nomatch hs)
  rw [List.append_nil] at hread
  have hsymbols : ofSymbols? (v.chars.map some) = some v := by
    unfold ofSymbols?
    rw [hread]
    rfl
  unfold ofBytes? render
  rw [Utf8.symbols_encode, String.toList_ofList, hsymbols, Option.bind_eq_bind, Option.bind_some,
    if_pos (Nat.le_trans h.depth_le hn)]

end Restaking.Json
