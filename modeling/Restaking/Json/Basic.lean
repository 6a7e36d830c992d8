import Restaking.Text.Numeral

/-!
# JSON values

A value is a scalar, a string, a list, or an object whose members keep their order and may repeat
a name. A scalar (a number, a truth value, the null) is kept as the text it was written with: the
type that reads it decides what the text means, since `-0` is an integer but no natural number.
For the same reason a list that was written with a comma before every item is kept apart: what its
items are is up to the type that reads it.

Writing (`render`) puts no blank anywhere and escapes in strings only what has to be escaped.
-/

namespace Restaking

/-- A JSON value. -/
inductive Json where
  /-- A number, `true`, `false` or `null`, by its text. -/
  | scalar (text : String)
  /-- A string, by the text that it denotes. -/
  | str (text : String)
  /-- A list of values. -/
  | arr (items : List Json)
  /-- A list with a comma before each item, the first one included. -/
  | loose (items : List Json)
  /-- An object: names with values, in order. -/
  | obj (members : List (String × Json))

namespace Json

/-- The value that stands for absence. -/
def null : Json := .scalar "null"

/-- A truth value. -/
def ofBool (b : Bool) : Json := .scalar (if b then "true" else "false")

/-- A natural number. -/
def ofNat (n : Nat) : Json := .scalar (Numeral.text n)

/-- An integer. -/
def ofInt (i : Int) : Json := .scalar (Numeral.intText i)

/-! ## Writing -/

/-- The uppercase hexadecimal digit of a value below sixteen. -/
def upperHexDigit (n : Nat) : Char :=
  if n < 10 then Char.ofNat ('0'.toNat + n) else Char.ofNat ('A'.toNat + (n - 10))

/-- A character inside a string: quote, backslash and control characters are escaped, the
controls by their short form if they have one. -/
def escape (c : Char) : List Char :=
  if c = '"' then ['\\', '"']
  else if c = '\\' then ['\\', '\\']
  else if c = '\x08' then ['\\', 'b']
  else if c = '\x09' then ['\\', 't']
  else if c = '\x0a' then ['\\', 'n']
  else if c = '\x0c' then ['\\', 'f']
  else if c = '\x0d' then ['\\', 'r']
  else if c.toNat < 0x20 then
    ['\\', 'u', '0', '0', upperHexDigit (c.toNat / 16), upperHexDigit (c.toNat % 16)]
  else [c]

/-- A string between quotes. -/
def quote (text : String) : List Char :=
  '"' :: (text.toList.flatMap escape ++ ['"'])

mutual

/-- The characters of a value. -/
def chars : Json → List Char
  | .scalar text => text.toList
  | .str text => quote text
  | .arr items => '[' :: (itemChars items ++ [']'])
  | .loose items => '[' :: (furtherChars items ++ [']'])
  | .obj members => '\x7b' :: (memberChars members ++ ['\x7d'])

/-- The characters of list items, separated by commas. -/
def itemChars : List Json → List Char
  | [] => []
  | v :: rest => chars v ++ furtherChars rest

/-- The characters of list items, each after a comma. -/
def furtherChars : List Json → List Char
  | [] => []
  | v :: rest => ',' :: (chars v ++ furtherChars rest)

/-- The characters of object members, separated by commas. -/
def memberChars : List (String × Json) → List Char
  | [] => []
  | [(name, v)] => quote name ++ ':' :: chars v
  | (name, v) :: m :: rest => quote name ++ ':' :: (chars v ++ ',' :: memberChars (m :: rest))

end

/-- The text of a value. -/
def render (v : Json) : String :=
  String.ofList v.chars

/-! ## Nesting -/

mutual

/-- The number of lists and objects that enclose the innermost value, the value itself
included. -/
def depth : Json → Nat
  | .scalar _ => 0
  | .str _ => 0
  | .arr items => itemDepth items + 1
  | .loose items => itemDepth items + 1
  | .obj members => memberDepth members + 1

/-- The greatest depth among list items. -/
def itemDepth : List Json → Nat
  | [] => 0
  | v :: rest => max (depth v) (itemDepth rest)

/-- The greatest depth among object members. -/
def memberDepth : List (String × Json) → Nat
  | [] => 0
  | (_, v) :: rest => max (depth v) (memberDepth rest)

end

end Json

end Restaking
