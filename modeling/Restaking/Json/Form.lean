import Restaking.Json.Reader
import Restaking.Text.Base64

/-!
# JSON forms of types

A type with a JSON form says how its values are written (`toJson`) and which JSON values it reads
(`ofJson?`). Reading an object follows one set of rules, which the functions on `Members` hold.

* A member that no field asks for is ignored.
* A name that a field asks for may occur once only.
* A field is required, or optional (absent and `null` are the same), or has a default for the
  case that it is absent.
* A choice between variants is an object with exactly one member, named for the variant.

A list whose items all stand after a comma has a comma to spare (see the reader). If it is read as
a list of numbers, the place where the comma is missing may lie inside a scalar, between two
numerals.
-/

namespace Restaking

/-- Types whose values have a JSON form. -/
class JsonForm (α : Type) where
  /-- The JSON value that stands for a value of the type. -/
  toJson : α → Json
  /-- The value that a JSON value stands for, if it stands for one. -/
  ofJson? : Json → Option α

export JsonForm (toJson ofJson?)

/-- The members of an object. -/
abbrev Members := List (String × Json)

namespace Members

/-- The values under a name. -/
def all (members : Members) (name : String) : List Json :=
  (members.filter (·.1 = name)).map (·.2)

variable {α : Type} [JsonForm α]

/-- A field that must be there. -/
def required? (members : Members) (name : String) : Option α :=
  match members.all name with
  | [v] => ofJson? v
  | _ => none

/-- A field that may be absent or `null`. -/
def optional? (members : Members) (name : String) : Option (Option α) :=
  match members.all name with
  | [] => some none
  | [.scalar "null"] => some none
  | [v] => (ofJson? v).map some
  | _ => none

/-- A field with a default for the case that it is absent. -/
def withDefault? (members : Members) (name : String) (default : α) : Option α :=
  match members.all name with
  | [] => some default
  | [v] => ofJson? v
  | _ => none

end Members

namespace Json

variable {α : Type} [JsonForm α]

/-- The members of a value that is an object. -/
def members? : Json → Option Members
  | .obj members => some members
  | _ => none

/-- The name and the value of an object's only member. -/
def variant? : Json → Option (String × Json)
  | .obj [member] => some member
  | _ => none

/-- The choice of a variant. -/
def variant (name : String) (v : Json) : Json :=
  .obj [(name, v)]

/-- A member that is always written. -/
def field (name : String) (a : α) : Members :=
  [(name, toJson a)]

/-- A member that is written only if there is something to write. -/
def fieldIfAny (name : String) : Option α → Members
  | none => []
  | some a => [(name, toJson a)]

/-- A member that is `null` if there is nothing to write. -/
def fieldOrNull (name : String) : Option α → Members
  | none => [(name, null)]
  | some a => [(name, toJson a)]

end Json

/-- The text of a value's JSON form. -/
def jsonText {α : Type} [JsonForm α] (a : α) : String :=
  (toJson a).render

/-- The value that the bytes of a message stand for. -/
def ofMessage? (α : Type) [JsonForm α] (bytes : Bytes) : Option α :=
  (Json.ofBytes? bytes).bind ofJson?

/-! ## Scalars, texts, bytes and lists -/

instance : JsonForm String where
  toJson := .str
  ofJson?
    | .str text => some text
    | _ => none

instance : JsonForm Bool where
  toJson := .ofBool
  ofJson?
    | .scalar "true" => some true
    | .scalar "false" => some false
    | _ => none

/-- The natural number that a scalar spells, if it is below the bound. -/
def Json.natBelow? (bound : Nat) : Json → Option Nat
  | .scalar text => (Numeral.canonical? text.toList).filter (· < bound)
  | _ => none

/-- The integer that a scalar spells, if it lies from `-bound` up to but not including `bound`. -/
def Json.intWithin? (bound : Nat) : Json → Option Int
  | .scalar text => (Numeral.canonicalInt? text.toList).filter fun i => -(bound : Int) ≤ i ∧ i < bound
  | _ => none

instance : JsonForm UInt32 where
  toJson n := .ofNat n.toNat
  ofJson? v := (v.natBelow? UInt32.size).map UInt32.ofNat

instance : JsonForm UInt64 where
  toJson n := .ofNat n.toNat
  ofJson? v := (v.natBelow? UInt64.size).map UInt64.ofNat

instance : JsonForm Int32 where
  toJson i := .ofInt i.toInt
  ofJson? v := (v.intWithin? (Int32.size / 2)).map Int32.ofInt

instance : JsonForm Int64 where
  toJson i := .ofInt i.toInt
  ofJson? v := (v.intWithin? (Int64.size / 2)).map Int64.ofInt

/-- The two scalars that a scalar starting with a numeral falls into: the numeral, and what comes
after it and some blanks. -/
def Json.cut? : Json → Option (Json × Json)
  | .scalar text =>
    let (first, rest) := Numeral.splitFirst text.toList
    let second := rest.dropWhile fun c => Json.isBlank (some c)
    some (.scalar (String.ofList first), .scalar (String.ofList second))
  | _ => none

/-- The values of list items that all stand after a comma: the first item that stands for no value
may be two that lack the comma between them. -/
def Json.looseItems? {α : Type} [JsonForm α] : List Json → Option (List α)
  | [] => some []
  | v :: rest =>
    match (ofJson? v : Option α) with
    | some a => (looseItems? rest).map (a :: ·)
    | none => do
      let (first, second) ← v.cut?
      let a ← ofJson? first
      let b ← ofJson? second
      let others ← rest.mapM ofJson?
      return a :: b :: others

instance {α : Type} [JsonForm α] : JsonForm (List α) where
  toJson items := .arr (items.map toJson)
  ofJson?
    | .arr items => items.mapM ofJson?
    | .loose items => Json.looseItems? items
    | _ => none

/-- Bytes are written in base64. -/
instance : JsonForm Bytes where
  toJson bytes := .str (Base64.encode bytes)
  ofJson?
    | .str text => Base64.decode? text
    | _ => none

end Restaking
