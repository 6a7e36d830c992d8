import Restaking.Bech32.Checksum

/-!
# Bech32 texts

A bech32 text is a human-readable part, a separator `1`, and data symbols whose last six are a
checksum. It is written in one letter case. Reading reports the first fault it meets, in this
order: no separator, a human-readable part of bad length, its bytes one by one, the data symbols
one by one, too few data symbols, the checksum. The number of data symbols has no upper limit.
-/

namespace Restaking.Bech32

/-- Why a text is not bech32. -/
inductive Error where
  | missingSeparator
  | badLength
  | badCharacter (c : Char)
  | mixedCase
  | badChecksum
  deriving DecidableEq

/-- The wording of an error. -/
def Error.message : Error → String
  | .missingSeparator => "missing human-readable separator, \"1\""
  | .badLength => "invalid length"
  | .badCharacter c => "invalid character (code=" ++ c.toString ++ ")"
  | .mixedCase => "mixed-case strings not allowed"
  | .badChecksum => "invalid checksum"

/-! ## Letter case -/

/-- The case that letters have shown so far. -/
inductive LetterCase where
  | lower
  | upper
  deriving DecidableEq

/-- The case of a character that is an ASCII letter. -/
def letterCase? (c : Char) : Option LetterCase :=
  if 'a' ≤ c ∧ c ≤ 'z' then some .lower
  else if 'A' ≤ c ∧ c ≤ 'Z' then some .upper
  else none

/-- The case shown after one more character. -/
def noteCase (seen : Option LetterCase) (c : Char) : Except Error (Option LetterCase) :=
  match seen, letterCase? c with
  | seen, none => .ok seen
  | none, some k => .ok (some k)
  | some s, some k => if s = k then .ok (some s) else .error .mixedCase

/-! ## The human-readable part -/

/-- The greatest length of a human-readable part in bytes. -/
def maxHrpLength : Nat := 83

/-- Goes over the bytes of a human-readable part: printable ASCII in one letter case. -/
def scanHrp (seen : Option LetterCase) : Bytes → Except Error (Option LetterCase)
  | [] => .ok seen
  | b :: rest => do
    let c := Char.ofNat b.toNat
    if 33 ≤ b ∧ b ≤ 126 then
      scanHrp (← noteCase seen c) rest
    else
      .error (.badCharacter c)

/-- Checks a human-readable part and yields the case of its letters. -/
def checkHrp (hrp : Bytes) : Except Error (Option LetterCase) :=
  if hrp.length = 0 ∨ maxHrpLength < hrp.length then .error .badLength else scanHrp none hrp

/-- ASCII letters in lowercase, all else as it is. -/
def lowercase (text : List Char) : List Char :=
  text.map Char.toLower

/-! ## Data symbols -/

/-- The symbols of the words, in order. -/
def alphabet : List Char :=
  "qpzry9x8gf2tvdw0s3jn54khce6mua7l".toList

/-- The symbol of a word. -/
def symbol (w : Word) : Char :=
  alphabet.getD w.toNat 'q'

/-- The word of a lowercase symbol. -/
def wordOfLower? (c : Char) : Option Word :=
  (alphabet.findIdx? (· = c)).map (BitVec.ofNat 5)

/-- Goes over data symbols and yields their words. -/
def scanData (seen : Option LetterCase) : List Char → Except Error (List Word)
  | [] => .ok []
  | c :: rest => do
    if 128 ≤ c.toNat then
      .error (.badCharacter c)
    else
      let seen ← noteCase seen c
      match wordOfLower? c.toLower with
      | none => .error (.badCharacter c)
      | some w =>
        let words ← scanData seen rest
        return w :: words

/-! ## Whole texts -/

/-- The characters before and after the last separator. -/
def splitAtSeparator? (text : List Char) : Option (List Char × List Char) :=
  match text.reverse.dropWhile (· ≠ '1') with
  | [] => none
  | _ :: before => some (before.reverse, (text.reverse.takeWhile (· ≠ '1')).reverse)

/-- What a bech32 text says. -/
structure Decoded where
  /-- The human-readable part in lowercase. -/
  hrp : String
  /-- The data without the checksum. -/
  words : List Word
  /-- The variant of the checksum. -/
  variant : Variant

/-- Reads a bech32 text. -/
def decode (text : String) : Except Error Decoded :=
  match splitAtSeparator? text.toList with
  | none => .error .missingSeparator
  | some (rawHrp, data) => do
    let seen ← checkHrp (Utf8.encode (String.ofList rawHrp))
    let words ← scanData seen data
    if words.length < checksumLength then
      .error .badLength
    else
      let hrp := String.ofList (lowercase rawHrp)
      match variant? (Utf8.encode hrp) words with
      | none => .error .badChecksum
      | some variant =>
        return { hrp, words := words.take (words.length - checksumLength), variant }

/-- Writes a bech32 text in lowercase. -/
def encode (hrp : String) (words : List Word) : Except Error String := do
  let _ ← checkHrp (Utf8.encode hrp)
  let hrp := lowercase hrp.toList
  let sum := checksum .bech32 (Utf8.encode (String.ofList hrp)) words
  return String.ofList (hrp ++ '1' :: (words ++ sum).map symbol)

end Restaking.Bech32
