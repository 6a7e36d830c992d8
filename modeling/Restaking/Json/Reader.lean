import Restaking.Json.Basic
import Restaking.Text.Hex
import Restaking.Text.Utf8

/-!
# Reading JSON

The reader goes over the symbols of a byte stream.

1. Objects follow the standard: names are strings, and there is a comma between two members and
   nowhere else.
2. In a list every item stands after a comma, with the exception of one at most. That one is the
   first as a rule; but if the first has its comma, a later one may do without.
3. A string without escapes may hold raw control characters, and one with escapes may not. The
   escapes are the standard ones. A surrogate waits for its other half over any number of escapes
   of other characters, which then come before the character of the pair. Inside a string a
   malformed byte is an error.
4. A scalar runs up to the next comma or closing bracket, whatever it holds. The type that reads
   the scalar judges its text; where no type reads it, because the member is unknown, any text
   will do.
5. A message nests at most `maxDepth` lists and objects.

The functions on values share one measure, `fuel`, that bounds their nesting. Each call but the
opening of a list or object uses up a symbol, so twice the length of the input is enough.
-/

namespace Restaking.Json

open Utf8 (Symbol)

/-- Space, tab, line feed and carriage return separate tokens. -/
def isBlank (s : Symbol) : Bool :=
  s = some ' ' || s = some '\x09' || s = some '\x0a' || s = some '\x0d'

/-- The symbols after the leading blanks. -/
def skipBlanks (input : List Symbol) : List Symbol :=
  input.dropWhile isBlank

/-! ## Strings -/

/-- One unit of a string's content: a character, or a surrogate from a numeric escape. -/
inductive TextUnit where
  /-- A character as such. -/
  | raw (c : Char)
  /-- A character that an escape denotes. -/
  | escaped (c : Char)
  /-- An escape with a code from the surrogate range. -/
  | surrogate (code : Nat)

/-- Whether a unit is an escape. -/
def TextUnit.isEscape : TextUnit → Bool
  | .raw _ => false
  | _ => true

/-- Whether a unit is a control character as such. -/
def TextUnit.isRawControl : TextUnit → Bool
  | .raw c => c.toNat < 0x20
  | _ => false

/-- The value of a hexadecimal digit of either case. -/
def hexValue? (s : Symbol) : Option Nat :=
  s.bind fun c => if c.toNat < 0x80 then Hex.value? (UInt8.ofNat c.toNat) else none

/-- The unit that a numeric escape denotes. -/
def numericEscape? (a b c d : Symbol) : Option TextUnit := do
  let code := 4096 * (← hexValue? a) + 256 * (← hexValue? b) + 16 * (← hexValue? c) + (← hexValue? d)
  return if 0xd800 ≤ code ∧ code ≤ 0xdfff then .surrogate code else .escaped (Char.ofNat code)

/-- The character that a one-letter escape denotes. -/
def shortEscape? (s : Symbol) : Option Char :=
  match s with
  | some '"' => some '"'
  | some '\\' => some '\\'
  | some '/' => some '/'
  | some 'b' => some '\x08'
  | some 'f' => some '\x0c'
  | some 'n' => some '\x0a'
  | some 'r' => some '\x0d'
  | some 't' => some '\x09'
  | _ => none

/-- The units of a string up to its closing quote, and the symbols after it. -/
def readUnits : List Symbol → Option (List TextUnit × List Symbol)
  | [] => none
  | none :: _ => none
  | some '"' :: rest => some ([], rest)
  | some '\\' :: some 'u' :: a :: b :: c :: d :: rest => do
    let u ← numericEscape? a b c d
    let (units, rest) ← readUnits rest
    return (u :: units, rest)
  | some '\\' :: s :: rest => do
    let c ← shortEscape? s
    let (units, rest) ← readUnits rest
    return (.escaped c :: units, rest)
  | some '\\' :: [] => none
  | some c :: rest => do
    let (units, rest) ← readUnits rest
    return (.raw c :: units, rest)

/-- The character of a surrogate pair. -/
def pairChar (high low : Nat) : Char :=
  Char.ofNat (0x10000 + (high - 0xd800) * 0x400 + (low - 0xdc00))

/-- The characters of the units, if every surrogate is half of a pair. The high half that waits for
its low half is given; while it waits, escapes may come, but no character as such. -/
def joinUnits : Option Nat → List TextUnit → Option (List Char)
  | none, [] => some []
  | some _, [] => none
  | none, .raw c :: rest => (joinUnits none rest).map (c :: ·)
  | some _, .raw _ :: _ => none
  | waiting, .escaped c :: rest => (joinUnits waiting rest).map (c :: ·)
  | none, .surrogate code :: rest => if code < 0xdc00 then joinUnits (some code) rest else none
  | some high, .surrogate code :: rest =>
    if 0xdc00 ≤ code then (joinUnits none rest).map (pairChar high code :: ·) else none

/-- The text of the units: a string with escapes has no control characters as such. -/
def textOfUnits? (units : List TextUnit) : Option String :=
  if units.any TextUnit.isEscape && units.any TextUnit.isRawControl then none
  else (joinUnits none units).map String.ofList

/-- The text of a string whose opening quote has been read, and the symbols after it. -/
def readText (input : List Symbol) : Option (String × List Symbol) := do
  let (units, rest) ← readUnits input
  let text ← textOfUnits? units
  return (text, rest)

/-! ## Values -/

/-- The symbols that end a scalar. -/
def endsScalar (s : Symbol) : Bool :=
  s = some ',' || s = some ']' || s = some '\x7d'

/-- A scalar, and the symbols after it. In its text a malformed byte becomes the replacement
character, which no scalar's spelling has. -/
def readScalar (input : List Symbol) : Option (Json × List Symbol) :=
  match input.takeWhile (!endsScalar ·) with
  | [] => none
  | body =>
    let spelling := (body.reverse.dropWhile isBlank).reverse
    some (.scalar (String.ofList (spelling.map (·.getD '\ufffd'))), input.dropWhile (!endsScalar ·))

/-- The name of a member with its colon, and the symbols after it. -/
def readName (input : List Symbol) : Option (String × List Symbol) :=
  match skipBlanks input with
  | some '"' :: rest => do
    let (name, rest) ← readText rest
    match skipBlanks rest with
    | some ':' :: rest => some (name, rest)
    | _ => none
  | _ => none

mutual

/-- A value, and the symbols after it. -/
def readValue : Nat → List Symbol → Option (Json × List Symbol)
  | 0, _ => none
  | fuel + 1, input =>
    match skipBlanks input with
    | some '"' :: rest => do
      let (text, rest) ← readText rest
      return (.str text, rest)
    | some '[' :: rest => do
      let (items, spare, rest) ← readItems fuel true rest
      return (if spare && !items.isEmpty then .loose items else .arr items, rest)
    | some '\x7b' :: rest =>
      match skipBlanks rest with
      | some '\x7d' :: rest => some (.obj [], rest)
      | rest => do
        let (members, rest) ← readMembers fuel rest
        return (.obj members, rest)
    | rest => readScalar rest

/-- List items with the closing bracket, and the symbols after it. One item may do without a comma
if there is a comma to spare, and the answer tells whether it is left at the end. -/
def readItems : Nat → Bool → List Symbol → Option (List Json × Bool × List Symbol)
  | 0, _, _ => none
  | fuel + 1, spare, input =>
    match skipBlanks input with
    | some ']' :: rest => some ([], spare, rest)
    | some ',' :: rest => do
      let (v, rest) ← readValue fuel rest
      let (items, spare, rest) ← readItems fuel spare rest
      return (v :: items, spare, rest)
    | rest =>
      if spare then do
        let (v, rest) ← readValue fuel rest
        let (items, spare, rest) ← readItems fuel false rest
        return (v :: items, spare, rest)
      else none

/-- One or more members with the closing brace, and the symbols after it. -/
def readMembers : Nat → List Symbol → Option (List (String × Json) × List Symbol)
  | 0, _ => none
  | fuel + 1, input => do
    let (name, rest) ← readName input
    let (v, rest) ← readValue fuel rest
    match skipBlanks rest with
    | some ',' :: rest => do
      let (members, rest) ← readMembers fuel rest
      return ((name, v) :: members, rest)
    | some '\x7d' :: rest => return ([(name, v)], rest)
    | _ => none

end

/-- The value that the symbols spell, blanks around it aside. -/
def ofSymbols? (input : List Symbol) : Option Json := do
  let (v, rest) ← readValue (2 * input.length + 2) input
  if skipBlanks rest = [] then some v else none

/-- The number of lists and objects that a message may nest. -/
def maxDepth : Nat := 127

/-- The value that the bytes of a message spell. -/
def ofBytes? (bytes : Bytes) : Option Json := do
  let v ← ofSymbols? (Utf8.symbols bytes)
  if v.depth ≤ maxDepth then some v else none

end Restaking.Json
