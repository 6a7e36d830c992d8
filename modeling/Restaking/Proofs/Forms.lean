import Restaking.Json.Form
import Restaking.Proofs.JsonTexts
import Restaking.Proofs.Numerals

/-!
# Forms that read what they write

A type's form is lawful if every value is read back from the JSON value that stands for it, that
JSON value is regular, and it is not the null, which an optional field reads as absence. A message
written by a lawful form is read back (`ofMessage?_jsonText`).

The form of a record is lawful if its members are read back field by field. What a field reads is
the values under its name (`Members.all`), and the lemmas on `all` find them among the members that
are written. The form of a choice between variants is lawful if each variant is read back.
-/

namespace Restaking

open Json (Regular field fieldIfAny fieldOrNull variant)

/-- Forms that read back what they write, with the number of lists and objects that a value nests
at most. -/
class LawfulForm (α : Type) [JsonForm α] (height : outParam Nat) : Prop where
  ofJson?_toJson (a : α) : ofJson? (toJson a) = some a
  regular (a : α) : (toJson a).Regular height
  toJson_ne_null (a : α) : toJson a ≠ Json.null

attribute [simp] LawfulForm.ofJson?_toJson

namespace Json

/-- Members with regular values. -/
def RegularMembers (n : Nat) (ms : Members) : Prop :=
  ∀ m ∈ ms, Regular n m.2

theorem regular_null {n : Nat} : Regular n null :=
  .scalar (by decide) (List.all_eq_true.1 (show "null".toList.all isPlain = true by decide))

section Members

variable {α : Type} [JsonForm α] {n height : Nat} [LawfulForm α height]

@[simp] theorem regularMembers_append {ms ms' : Members} :
    RegularMembers n (ms ++ ms') ↔ RegularMembers n ms ∧ RegularMembers n ms' :=
  List.forall_mem_append

@[simp] theorem regularMembers_nil : RegularMembers n [] :=
  fun _ h => absurd h List.not_mem_nil

@[simp] theorem regularMembers_field (h : height ≤ n) (name : String) (a : α) :
    RegularMembers n (field name a) := by
  intro m hm
  obtain rfl := List.mem_singleton.1 hm
  exact (LawfulForm.regular a).mono h

@[simp] theorem regularMembers_fieldIfAny (h : height ≤ n) (name : String)
    (a : Option α) : RegularMembers n (fieldIfAny name a) := by
  cases a with
  | none => exact regularMembers_nil
  | some a => exact regularMembers_field h name a

@[simp] theorem regularMembers_fieldOrNull (h : height ≤ n) (name : String)
    (a : Option α) : RegularMembers n (fieldOrNull name a) := by
  cases a with
  | none =>
    intro m hm
    obtain rfl := List.mem_singleton.1 hm
    exact regular_null
  | some a => exact regularMembers_field h name a

end Members

end Json

open Json

/-- The form of a record whose members are read back is lawful. -/
theorem LawfulForm.ofMembers {α : Type} [JsonForm α] {n : Nat} {members : α → Members}
    {read : Members → Option α} (hto : ∀ a, toJson a = .obj (members a))
    (hof : ∀ v, (ofJson? v : Option α) = v.members?.bind read)
    (hread : ∀ a, read (members a) = some a) (hregular : ∀ a, RegularMembers n (members a)) :
    LawfulForm α (n + 1) where
  ofJson?_toJson a := by
    rw [hto, hof]
    exact hread a
  regular a := by
    rw [hto]
    exact .obj (hregular a)
  toJson_ne_null a := by
    rw [hto]
    exact Json.noConfusion

/-- The form of a choice between variants is lawful if every variant is read back. -/
theorem LawfulForm.ofVariants {α : Type} [JsonForm α] {n : Nat}
    (hread : ∀ a : α, ofJson? (toJson a) = some a)
    (hto : ∀ a : α, ∃ name v, toJson a = variant name v ∧ Regular n v) : LawfulForm α (n + 1) where
  ofJson?_toJson := hread
  regular a := by
    obtain ⟨name, v, hv, hregular⟩ := hto a
    rw [hv]
    refine .obj fun m hm => ?_
    obtain rfl := List.mem_singleton.1 hm
    exact hregular
  toJson_ne_null a := by
    obtain ⟨name, v, hv, -⟩ := hto a
    rw [hv]
    exact Json.noConfusion

/-- A variant is read back if it is read as the choice of what its value is read as. -/
theorem ofJson?_variant {α β : Type} [JsonForm α] [JsonForm β] {height : Nat} [LawfulForm β height]
    {name : String} {choose : β → α}
    (hof : ∀ v, (ofJson? (variant name v) : Option α) = (ofJson? v).bind fun b => some (choose b))
    (b : β) : ofJson? (variant name (toJson b)) = some (choose b) := by
  rw [hof, LawfulForm.ofJson?_toJson, Option.bind_some]

/-- The message that a value is written as is read as that value. -/
theorem ofMessage?_jsonText {α : Type} [JsonForm α] {height : Nat} [LawfulForm α height]
    (h : height ≤ maxDepth) (a : α) : ofMessage? α (Utf8.encode (jsonText a)) = some a := by
  unfold ofMessage? jsonText
  rw [ofBytes?_render (LawfulForm.regular a) h, Option.bind_some, LawfulForm.ofJson?_toJson]

/-! ## Members by name -/

namespace Members

variable {α : Type} [JsonForm α]

@[simp] theorem all_append (ms ms' : Members) (name : String) :
    all (ms ++ ms') name = all ms name ++ all ms' name := by
  unfold all
  rw [List.filter_append, List.map_append]

@[simp] theorem all_field_self (name : String) (a : α) : all (field name a) name = [toJson a] := by
  simp [all, field]

@[simp] theorem all_field_of_ne {name name' : String} (h : name ≠ name') (a : α) :
    all (field name a) name' = [] := by
  simp [all, field, h]

@[simp] theorem all_fieldIfAny_of_ne {name name' : String} (h : name ≠ name') (a : Option α) :
    all (fieldIfAny name a) name' = [] := by
  cases a with
  | none => rfl
  | some a => exact all_field_of_ne h a

@[simp] theorem all_fieldOrNull_of_ne {name name' : String} (h : name ≠ name') (a : Option α) :
    all (fieldOrNull name a) name' = [] := by
  cases a with
  | none => simp [all, fieldOrNull, h]
  | some a => exact all_field_of_ne h a

/-- An optional field is read from the members that have its name. -/
@[simp] theorem optional?_append_right {ms ms' : Members} {name : String} (h : ms.all name = []) :
    ((ms ++ ms').optional? name : Option (Option α)) = ms'.optional? name := by
  unfold optional?
  rw [all_append, h, List.nil_append]

@[simp] theorem optional?_append_left {ms ms' : Members} {name : String} (h : ms'.all name = []) :
    ((ms ++ ms').optional? name : Option (Option α)) = ms.optional? name := by
  unfold optional?
  rw [all_append, h, List.append_nil]

/-- A value that is written is not taken for an absent one, since it is not written as the null. -/
theorem optional?_field {height : Nat} [LawfulForm α height] (name : String) (a : α) :
    ((field name a).optional? name : Option (Option α)) = some (some a) := by
  have hnull : toJson a ≠ .scalar "null" := LawfulForm.toJson_ne_null a
  unfold optional?
  rw [all_field_self]
  split
  case h_1 heq => cases heq
  case h_2 heq => exact absurd (List.cons.inj heq).1 hnull
  case h_3 heq =>
    obtain rfl := (List.cons.inj heq).1
    rw [LawfulForm.ofJson?_toJson]
    rfl
  case h_4 hno => exact absurd rfl (hno _)

@[simp] theorem optional?_fieldIfAny {height : Nat} [LawfulForm α height] (name : String)
    (a : Option α) : (fieldIfAny name a).optional? name = some a := by
  cases a with
  | none => rfl
  | some a => exact optional?_field name a

@[simp] theorem optional?_fieldOrNull {height : Nat} [LawfulForm α height] (name : String)
    (a : Option α) : (fieldOrNull name a).optional? name = some a := by
  cases a with
  | none => simp [optional?, all, fieldOrNull, Json.null]
  | some a => exact optional?_field name a

end Members

/-! ## Scalars -/

namespace Json

theorem isPlain_of_isDigit {c : Char} (h : c.isDigit = true) : isPlain c = true := by
  have hall : ∀ k : Fin 10, isPlain (Char.ofNat (48 + k)) = true := by decide
  obtain ⟨h0, h9⟩ : 48 ≤ c.toNat ∧ c.toNat ≤ 57 := Char.isDigit_iff_toNat.1 h
  have hc := hall ⟨c.toNat - 48, by omega⟩
  rwa [show 48 + (c.toNat - 48) = c.toNat by omega, Char.ofNat_toNat] at hc

theorem regular_ofNat (n : Nat) : Regular 0 (ofNat n) := by
  refine .scalar ?_ ?_
  · rw [Numeral.text, String.toList_ofList]
    exact Numeral.ofNat_ne_nil n
  · rw [Numeral.text, String.toList_ofList]
    exact fun c hc => isPlain_of_isDigit (Numeral.isDigit_ofNat hc)

theorem regular_ofInt (i : Int) : Regular 0 (ofInt i) := by
  cases i with
  | ofNat n => exact regular_ofNat n
  | negSucc n =>
    refine .scalar ?_ ?_
    · rw [Numeral.intText, Numeral.ofInt, String.toList_ofList]
      exact List.cons_ne_nil _ _
    · rw [Numeral.intText, Numeral.ofInt, String.toList_ofList]
      rintro c (_ | ⟨_, hc⟩)
      · decide
      · exact isPlain_of_isDigit (Numeral.isDigit_ofNat hc)

theorem ofNat_ne_null (n : Nat) : ofNat n ≠ null := by
  intro h
  have htext : String.ofList (Numeral.ofNat n) = "null" := Json.scalar.inj h
  have hchars := congrArg String.toList htext
  rw [String.toList_ofList] at hchars
  have hdigit := Numeral.isDigit_ofNat (n := n) (c := 'n') (by rw [hchars]; decide)
  cases hdigit

theorem ofInt_ne_null (i : Int) : ofInt i ≠ null := by
  cases i with
  | ofNat n => exact ofNat_ne_null n
  | negSucc n =>
    intro h
    have htext : String.ofList ('-' :: Numeral.ofNat (n + 1)) = "null" := Json.scalar.inj h
    have hchars := congrArg String.toList htext
    rw [String.toList_ofList] at hchars
    cases hchars

theorem natBelow?_ofNat {bound n : Nat} (h : n < bound) : (ofNat n).natBelow? bound = some n := by
  change (Numeral.canonical? (String.ofList (Numeral.ofNat n)).toList).filter (· < bound) = some n
  rw [String.toList_ofList, Numeral.canonical?_ofNat, Option.filter_some, if_pos (decide_eq_true h)]

theorem intWithin?_ofInt {bound : Nat} {i : Int} (hlow : -(bound : Int) ≤ i) (hhigh : i < bound) :
    (ofInt i).intWithin? bound = some i := by
  change (Numeral.canonicalInt? (String.ofList (Numeral.ofInt i)).toList).filter _ = some i
  rw [String.toList_ofList, Numeral.canonicalInt?_ofInt, Option.filter_some,
    if_pos (decide_eq_true ⟨hlow, hhigh⟩)]

end Json

instance lawfulForm_uint32 : LawfulForm UInt32 0 where
  ofJson?_toJson n := by
    change ((Json.ofNat n.toNat).natBelow? UInt32.size).map UInt32.ofNat = some n
    rw [natBelow?_ofNat n.toNat_lt, Option.map_some, UInt32.ofNat_toNat]
  regular n := regular_ofNat n.toNat
  toJson_ne_null n := ofNat_ne_null n.toNat

instance lawfulForm_uint64 : LawfulForm UInt64 0 where
  ofJson?_toJson n := by
    change ((Json.ofNat n.toNat).natBelow? UInt64.size).map UInt64.ofNat = some n
    rw [natBelow?_ofNat n.toNat_lt, Option.map_some, UInt64.ofNat_toNat]
  regular n := regular_ofNat n.toNat
  toJson_ne_null n := ofNat_ne_null n.toNat

instance lawfulForm_int32 : LawfulForm Int32 0 where
  ofJson?_toJson i := by
    have hread : (Json.ofInt i.toInt).intWithin? (Int32.size / 2) = some i.toInt :=
      intWithin?_ofInt i.le_toInt i.toInt_lt
    change ((Json.ofInt i.toInt).intWithin? (Int32.size / 2)).map Int32.ofInt = some i
    rw [hread, Option.map_some, Int32.ofInt_toInt]
  regular i := regular_ofInt i.toInt
  toJson_ne_null i := ofInt_ne_null i.toInt

instance lawfulForm_int64 : LawfulForm Int64 0 where
  ofJson?_toJson i := by
    have hread : (Json.ofInt i.toInt).intWithin? (Int64.size / 2) = some i.toInt :=
      intWithin?_ofInt i.le_toInt i.toInt_lt
    change ((Json.ofInt i.toInt).intWithin? (Int64.size / 2)).map Int64.ofInt = some i
    rw [hread, Option.map_some, Int64.ofInt_toInt]
  regular i := regular_ofInt i.toInt
  toJson_ne_null i := ofInt_ne_null i.toInt

/-! ## Texts, bytes and lists -/

instance lawfulForm_string : LawfulForm String 0 where
  ofJson?_toJson _ := rfl
  regular text := .str text
  toJson_ne_null _ := Json.noConfusion

instance lawfulForm_bytes : LawfulForm Bytes 0 where
  ofJson?_toJson := Base64.decode?_encode
  regular bytes := .str (Base64.encode bytes)
  toJson_ne_null _ := Json.noConfusion

instance lawfulForm_list {α : Type} [JsonForm α] {n : Nat} [LawfulForm α n] :
    LawfulForm (List α) (n + 1) where
  ofJson?_toJson items := mapM_map_eq_some fun a _ => LawfulForm.ofJson?_toJson a
  regular items := by
    refine .arr fun v hv => ?_
    obtain ⟨a, _, rfl⟩ := List.mem_map.1 hv
    exact LawfulForm.regular a
  toJson_ne_null _ := Json.noConfusion

end Restaking
