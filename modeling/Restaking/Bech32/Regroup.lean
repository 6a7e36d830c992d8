import Restaking.Text.Utf8

/-!
# Eight bits to five and back

Bytes become five-bit words through the row of their bits, most significant first. The last word
is filled up with zeros. On the way back, the bits that do not make up a byte are handed over as
they are, since not every reader is strict about them.
-/

namespace Restaking.Bech32

/-- A value of five bits. -/
abbrev Word := BitVec 5

/-- The lowest `width` bits of a number, most significant first. -/
def bits : Nat → Nat → List Bool
  | 0, _ => []
  | width + 1, n => n.testBit width :: bits width n

/-- The number that a row of bits denotes, most significant first. -/
def valueOfBits (row : List Bool) : Nat :=
  row.foldl (fun acc b => 2 * acc + b.toNat) 0

/-- The words that a row of bits makes up, the last one filled up with zeros. -/
def wordsOfBits : List Bool → List Word
  | [] => []
  | [a] => [.ofNat 5 (valueOfBits [a, false, false, false, false])]
  | [a, b] => [.ofNat 5 (valueOfBits [a, b, false, false, false])]
  | [a, b, c] => [.ofNat 5 (valueOfBits [a, b, c, false, false])]
  | [a, b, c, d] => [.ofNat 5 (valueOfBits [a, b, c, d, false])]
  | a :: b :: c :: d :: e :: rest => .ofNat 5 (valueOfBits [a, b, c, d, e]) :: wordsOfBits rest

/-- The bytes that a row of bits makes up, and the bits left over. -/
def bytesOfBits : List Bool → Bytes × List Bool
  | a :: b :: c :: d :: e :: f :: g :: h :: rest =>
    let (bytes, left) := bytesOfBits rest
    (UInt8.ofNat (valueOfBits [a, b, c, d, e, f, g, h]) :: bytes, left)
  | left => ([], left)

/-- The words of a byte list. -/
def wordsOfBytes (bytes : Bytes) : List Word :=
  wordsOfBits (bytes.flatMap fun b => bits 8 b.toNat)

/-- The bytes of a row of words, and the bits left over. -/
def bytesOfWords (words : List Word) : Bytes × List Bool :=
  bytesOfBits (words.flatMap fun w => bits 5 w.toNat)

/-- The bytes of a row of words that encodes bytes: fewer than five bits may be left over, and
they are zero. -/
def bytesOfWords? (words : List Word) : Option Bytes :=
  let (bytes, left) := bytesOfWords words
  if left.length < 5 ∧ left.all (!·) then some bytes else none

end Restaking.Bech32
