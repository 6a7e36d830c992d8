import Restaking.Text.Utf8
import Restaking.Text.Numeral

/-!
# Hexadecimal texts

Bytes are written as two lowercase digits each. Reading takes either case and goes over the
*bytes* of the text, pair by pair: an odd number of bytes is reported first, then the first byte
that is no digit, together with its position.
-/

namespace Restaking.Hex

/-- Why a text is not hexadecimal. -/
inductive Error where
  /-- The text has an odd number of bytes. -/
  | oddLength
  /-- The byte at the given position is no digit. -/
  | badDigit (byte : UInt8) (position : Nat)
  deriving DecidableEq

/-- The lowercase digit of a value below sixteen. -/
def digit (n : Nat) : Char :=
  if n < 10 then Char.ofNat ('0'.toNat + n) else Char.ofNat ('a'.toNat + (n - 10))

/-- The value of a digit byte of either case. -/
def value? (b : UInt8) : Option Nat :=
  if 0x30 ≤ b ∧ b ≤ 0x39 then some (b.toNat - 0x30)
  else if 0x61 ≤ b ∧ b ≤ 0x66 then some (b.toNat - 0x61 + 10)
  else if 0x41 ≤ b ∧ b ≤ 0x46 then some (b.toNat - 0x41 + 10)
  else none

/-- The two digits of a byte, the high one first. -/
def ofByte (b : UInt8) : List Char :=
  [digit (b.toNat / 16), digit (b.toNat % 16)]

/-- The lowercase hexadecimal text of the bytes. -/
def encode (bytes : Bytes) : String :=
  String.ofList (bytes.flatMap ofByte)

/-- The value of a digit byte, or the error that it stands at `position`. -/
def digitAt (position : Nat) (b : UInt8) : Except Error Nat :=
  match value? b with
  | some v => .ok v
  | none => .error (.badDigit b position)

/-- Reads digit pairs, the first of them at `position`. -/
def decodePairs (position : Nat) : Bytes → Except Error Bytes
  | [] => .ok []
  | [_] => .error .oddLength
  | hi :: lo :: rest => do
    let h ← digitAt position hi
    let l ← digitAt (position + 1) lo
    let bytes ← decodePairs (position + 2) rest
    return UInt8.ofNat (16 * h + l) :: bytes

/-- Reads digit pairs given as bytes. -/
def decodeBytes (digits : Bytes) : Except Error Bytes :=
  if digits.length % 2 = 1 then .error .oddLength else decodePairs 0 digits

/-- The bytes that a hexadecimal text denotes. -/
def decode (text : String) : Except Error Bytes :=
  decodeBytes (Utf8.encode text)

/-! ## Wording -/

/-- A byte shown as a character between quotes: the controls and the invisible blanks are
escaped, and so are the quote and the backslash. -/
def shown (b : UInt8) : String :=
  let body : List Char :=
    if b = 0 then ['\\', '0']
    else if b = 0x09 then ['\\', 't']
    else if b = 0x0a then ['\\', 'n']
    else if b = 0x0d then ['\\', 'r']
    else if b = 0x27 then ['\\', '\'']
    else if b = 0x5c then ['\\', '\\']
    else if b < 0x20 ∨ (0x7f ≤ b ∧ b ≤ 0xa0) ∨ b = 0xad then
      ['\\', 'u', '\x7b'] ++ (if b < 0x10 then [digit b.toNat] else ofByte b) ++ ['\x7d']
    else [Char.ofNat b.toNat]
  String.ofList ('\'' :: body ++ ['\''])

/-- The wording of an error. -/
def Error.message : Error → String
  | .oddLength => "Odd number of digits"
  | .badDigit b position =>
    "Invalid character " ++ shown b ++ " at position " ++ Numeral.text position

end Restaking.Hex
