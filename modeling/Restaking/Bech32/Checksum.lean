import Restaking.Bech32.Regroup

/-!
# The bech32 checksum

A row of words is a polynomial over the field of 32 elements. Its residue modulo a fixed generator
of degree six is computed word by word. A text is valid if the residue of its human-readable part
and its words, checksum included, is the constant of its variant.
-/

namespace Restaking.Bech32

/-- Six field elements, packed. -/
abbrev Residue := BitVec 30

/-- What the element shifted out at the top adds to the residue. -/
def feedback (r : Residue) : Residue :=
  (if r.getLsbD 25 then 0x3b6a57b2#30 else 0#30)
    ^^^ (if r.getLsbD 26 then 0x26508e6d#30 else 0#30)
    ^^^ (if r.getLsbD 27 then 0x1ea119fa#30 else 0#30)
    ^^^ (if r.getLsbD 28 then 0x3d4233dd#30 else 0#30)
    ^^^ (if r.getLsbD 29 then 0x2a1462b3#30 else 0#30)

/-- The residue after one more word. -/
def step (r : Residue) (w : Word) : Residue :=
  (r <<< 5) ^^^ w.setWidth 30 ^^^ feedback r

/-- The residue of a row of words. -/
def residue (words : List Word) : Residue :=
  words.foldl step 1#30

/-- The words that stand for a human-readable part: the high bits of each byte, a zero, and the
low bits of each byte. -/
def hrpWords (hrp : Bytes) : List Word :=
  hrp.map (fun b => .ofNat 5 (b.toNat / 32)) ++ 0#5 :: hrp.map (fun b => .ofNat 5 (b.toNat % 32))

/-- The two checksum variants. -/
inductive Variant where
  | bech32
  | bech32m
  deriving DecidableEq

/-- The residue of a valid text. -/
def Variant.constant : Variant → Residue
  | .bech32 => 1#30
  | .bech32m => 0x2bc830a3#30

/-- The number of words of a checksum. -/
def checksumLength : Nat := 6

/-- The six words of a residue, the highest first. -/
def residueWords (r : Residue) : List Word :=
  [(r >>> 25).setWidth 5, (r >>> 20).setWidth 5, (r >>> 15).setWidth 5,
    (r >>> 10).setWidth 5, (r >>> 5).setWidth 5, r.setWidth 5]

/-- The checksum of words under a human-readable part. -/
def checksum (variant : Variant) (hrp : Bytes) (words : List Word) : List Word :=
  residueWords
    (residue (hrpWords hrp ++ words ++ List.replicate checksumLength 0#5) ^^^ variant.constant)

/-- The variant under which words, checksum included, are valid. -/
def variant? (hrp : Bytes) (words : List Word) : Option Variant :=
  let r := residue (hrpWords hrp ++ words)
  if r = Variant.bech32.constant then some .bech32
  else if r = Variant.bech32m.constant then some .bech32m
  else none

end Restaking.Bech32
