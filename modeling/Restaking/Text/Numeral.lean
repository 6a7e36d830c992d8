/-!
# Numerals

Decimal numerals over ASCII digits. Writing uses no leading zero (`ofNat`, `ofInt`). Reading comes
in two strictnesses: `value?` takes any non-empty row of digits, `canonical?` only the row that
`ofNat` would write.
-/

namespace Restaking.Numeral

/-- The decimal digits of a natural number, without a leading zero. -/
def ofNat (n : Nat) : List Char :=
  Nat.toDigits 10 n

/-- The decimal digits of an integer, after a minus sign if it is negative. -/
def ofInt : Int → List Char
  | .ofNat n => ofNat n
  | .negSucc n => '-' :: ofNat (n + 1)

/-- The digits of `n`, filled up with zeros on the left to at least `width` characters. -/
def padded (width n : Nat) : List Char :=
  List.replicate (width - (ofNat n).length) '0' ++ ofNat n

/-- The value of an ASCII digit. -/
def digit? (c : Char) : Option Nat :=
  if '0' ≤ c ∧ c ≤ '9' then some (c.toNat - '0'.toNat) else none

/-- The number that a row of digits continues, `acc` being the value of the digits before it. -/
def valueFrom? (acc : Nat) : List Char → Option Nat
  | [] => some acc
  | c :: rest => (digit? c).bind fun d => valueFrom? (10 * acc + d) rest

/-- The number that a non-empty row of digits denotes; leading zeros are allowed. -/
def value? : List Char → Option Nat
  | [] => none
  | digits => valueFrom? 0 digits

/-- The number that a row of digits denotes if it has no superfluous leading zero. -/
def canonical? : List Char → Option Nat
  | ['0'] => some 0
  | '0' :: _ => none
  | digits => value? digits

/-- The integer that a canonical numeral denotes, with an optional minus sign; `-0` is zero. -/
def canonicalInt? : List Char → Option Int
  | '-' :: digits => (canonical? digits).map fun n => -(n : Int)
  | digits => (canonical? digits).map Int.ofNat

/-- The longest canonical numeral at the front, and the characters after it. -/
def splitFirst : List Char → List Char × List Char
  | '0' :: rest => (['0'], rest)
  | cs => cs.span fun c => (digit? c).isSome

/-- The number that a non-empty row of digits denotes, after an optional plus sign. -/
def signed? : List Char → Option Nat
  | '+' :: digits => value? digits
  | digits => value? digits

/-- The decimal text of a natural number. -/
def text (n : Nat) : String :=
  String.ofList (ofNat n)

/-- The decimal text of an integer. -/
def intText (i : Int) : String :=
  String.ofList (ofInt i)

end Restaking.Numeral
