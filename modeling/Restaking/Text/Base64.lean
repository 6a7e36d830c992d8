import Restaking.Text.Utf8

/-!
# Base64 texts

The standard alphabet. Bytes are written in groups of three with full padding. Reading is more
lenient about padding only: of the `=` signs that a last group needs, any number may be missing.
Surplus signs, a last group of one symbol, and non-zero bits after the last byte are refused.
-/

namespace Restaking.Base64

/-- The symbol of a value below 64. -/
def symbol (n : Nat) : Char :=
  if n < 26 then Char.ofNat ('A'.toNat + n)
  else if n < 52 then Char.ofNat ('a'.toNat + (n - 26))
  else if n < 62 then Char.ofNat ('0'.toNat + (n - 52))
  else if n = 62 then '+'
  else '/'

/-- The value of a symbol. -/
def value? (c : Char) : Option Nat :=
  if 'A' ≤ c ∧ c ≤ 'Z' then some (c.toNat - 'A'.toNat)
  else if 'a' ≤ c ∧ c ≤ 'z' then some (c.toNat - 'a'.toNat + 26)
  else if '0' ≤ c ∧ c ≤ '9' then some (c.toNat - '0'.toNat + 52)
  else if c = '+' then some 62
  else if c = '/' then some 63
  else none

/-- The symbols of the bytes, with full padding. -/
def encodeChars : Bytes → List Char
  | [] => []
  | [a] => [symbol (a.toNat / 4), symbol (a.toNat % 4 * 16), '=', '=']
  | [a, b] =>
    [symbol (a.toNat / 4), symbol (a.toNat % 4 * 16 + b.toNat / 16), symbol (b.toNat % 16 * 4), '=']
  | a :: b :: c :: rest =>
    symbol (a.toNat / 4) :: symbol (a.toNat % 4 * 16 + b.toNat / 16)
      :: symbol (b.toNat % 16 * 4 + c.toNat / 64) :: symbol (c.toNat % 64) :: encodeChars rest

/-- The base64 text of the bytes. -/
def encode (bytes : Bytes) : String :=
  String.ofList (encodeChars bytes)

/-- The bytes of a row of six-bit values; the bits left over must be zero and fewer than six. -/
def ofSextets? : List Nat → Option Bytes
  | [] => some []
  | [_] => none
  | [a, b] => if b % 16 = 0 then some [UInt8.ofNat (a * 4 + b / 16)] else none
  | [a, b, c] =>
    if c % 4 = 0 then
      some [UInt8.ofNat (a * 4 + b / 16), UInt8.ofNat (b % 16 * 16 + c / 4)]
    else none
  | a :: b :: c :: d :: rest =>
    (ofSextets? rest).map fun bytes =>
      UInt8.ofNat (a * 4 + b / 16) :: UInt8.ofNat (b % 16 * 16 + c / 4)
        :: UInt8.ofNat (c % 4 * 64 + d) :: bytes

/-- The number of padding signs that complete a row of `n` symbols. -/
def padding (n : Nat) : Nat :=
  (4 - n % 4) % 4

/-- The bytes that base64 characters denote. -/
def decodeChars? (cs : List Char) : Option Bytes := do
  let body := cs.takeWhile (· ≠ '=')
  let signs := cs.dropWhile (· ≠ '=')
  if signs.all (· = '=') ∧ signs.length ≤ padding body.length then
    ofSextets? (← body.mapM value?)
  else none

/-- The bytes that a base64 text denotes. -/
def decode? (text : String) : Option Bytes :=
  decodeChars? text.toList

end Restaking.Base64
