import Restaking.Json.Form

/-!
# Fixed-point decimals

A decimal is a natural number of units of 10⁻¹⁸, below 2¹²⁸.

*Reading.* A whole part, and after a point a fraction of at most eighteen characters; each part is
a row of digits that may carry a plus sign. The sign of a fraction takes up one of its places, so
`0.+5` is five hundredths.

*Writing.* The whole part, and a fraction without trailing zeros if there is one.
-/

namespace Restaking

/-- A decimal with eighteen places. -/
structure Decimal where
  /-- The number of units of 10⁻¹⁸. -/
  units : Nat
  /-- Decimals are bounded. -/
  units_lt : units < Nat.pow 2 128
  deriving DecidableEq

namespace Decimal

/-- The number of places. -/
def places : Nat := 18

/-- The number of units in one. -/
def unitsPerOne : Nat := Nat.pow 10 places

/-- The decimal of that many units, if it is within bounds. -/
def ofUnits? (units : Nat) : Option Decimal :=
  if h : units < Nat.pow 2 128 then some ⟨units, h⟩ else none

/-- The units that the characters after the point denote. -/
def fraction? (cs : List Char) : Option Nat :=
  (Numeral.signed? cs).bind fun n =>
    if cs.length ≤ places then some (n * Nat.pow 10 (places - cs.length)) else none

/-- The decimal that the characters denote. -/
def ofChars? (cs : List Char) : Option Decimal := do
  let whole ← Numeral.signed? (cs.takeWhile (· ≠ '.'))
  match cs.dropWhile (· ≠ '.') with
  | [] => ofUnits? (whole * unitsPerOne)
  | _ :: after => ofUnits? (whole * unitsPerOne + (← fraction? after))

/-- The decimal that a text denotes. -/
def ofText? (text : String) : Option Decimal :=
  ofChars? text.toList

/-- The eighteen digits of a fraction without the zeros at their end. -/
def fractionDigits (units : Nat) : List Char :=
  ((Numeral.padded places units).reverse.dropWhile (· = '0')).reverse

/-- The characters of a decimal. -/
def chars (d : Decimal) : List Char :=
  Numeral.ofNat (d.units / unitsPerOne) ++
    if d.units % unitsPerOne = 0 then [] else '.' :: fractionDigits (d.units % unitsPerOne)

/-- The text of a decimal. -/
def text (d : Decimal) : String :=
  String.ofList d.chars

/-- Decimals are strings on the wire. -/
instance : JsonForm Decimal where
  toJson d := .str d.text
  ofJson?
    | .str text => ofText? text
    | _ => none

end Decimal

end Restaking
