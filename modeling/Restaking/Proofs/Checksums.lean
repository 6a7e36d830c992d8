import Restaking.Bech32.Checksum
import Mathlib.Tactic.Ring

/-!
# The checksum is determined by what it covers

For every human-readable part and every row of words there are exactly six words that make the whole
valid under a variant: the checksum (`residue_append_eq_iff`).

1. A step of the residue is linear (`step_xor`), so the residue of a text is what six zeros would
   give, plus what the last six words give from nothing (`residue_append`).
2. Starting from nothing, six words are only shifted in, one after the other: nothing reaches the
   top before the last of them (`toNat_foldl_step`). So their residue spells them, and every residue
   is spelt by six words.
-/

namespace Restaking.Bech32

/-! ## Steps are linear -/

theorem ite_xor (a b : Bool) (g : Residue) :
    (if a ^^ b then g else 0#30) = (if a then g else 0#30) ^^^ (if b then g else 0#30) := by
  cases a <;> cases b <;> simp

theorem feedback_xor (r s : Residue) : feedback (r ^^^ s) = feedback r ^^^ feedback s := by
  unfold feedback
  simp only [BitVec.getLsbD_xor, ite_xor]
  ac_rfl

theorem step_xor (r s : Residue) (v w : Word) :
    step (r ^^^ s) (v ^^^ w) = step r v ^^^ step s w := by
  unfold step
  rw [BitVec.shiftLeft_xor_distrib, BitVec.setWidth_xor, feedback_xor]
  ac_rfl

theorem foldl_step_xor (r s : Residue) (words : List Word) :
    words.foldl step (r ^^^ s) =
      (List.replicate words.length 0#5).foldl step r ^^^ words.foldl step s := by
  induction words generalizing r s with
  | nil => rfl
  | cons w rest ih =>
    have hstep : step (r ^^^ s) w = step r 0#5 ^^^ step s w := by
      rw [← step_xor, BitVec.zero_xor]
    rw [List.foldl_cons, hstep, ih, List.length_cons, List.replicate_succ, List.foldl_cons,
      List.foldl_cons]

/-- The last words add what they give from nothing. -/
theorem residue_append (words last : List Word) :
    residue (words ++ last) =
      residue (words ++ List.replicate last.length 0#5) ^^^ last.foldl step 0#30 := by
  unfold residue
  rw [List.foldl_append, List.foldl_append, ← foldl_step_xor, BitVec.xor_zero]

/-! ## Six words from nothing -/

theorem feedback_of_lt {r : Residue} (h : r.toNat < 2 ^ 25) : feedback r = 0#30 := by
  have htop : ∀ i, 25 ≤ i → r.getLsbD i = false := by
    intro i hi
    have hpow : 2 ^ 25 ≤ 2 ^ i := Nat.pow_le_pow_right (by decide) hi
    exact Nat.testBit_lt_two_pow (by omega)
  unfold feedback
  rw [htop 25 (by decide), htop 26 (by decide), htop 27 (by decide), htop 28 (by decide),
    htop 29 (by decide)]
  rfl

theorem shiftLeft_xor_of_lt (n : Nat) {w : Nat} (h : w < 32) : (n <<< 5) ^^^ w = 32 * n + w := by
  have hadd : 2 ^ 5 * n + w = 2 ^ 5 * n ||| w := Nat.two_pow_add_eq_or_of_lt h n
  rw [show 32 * n + w = 2 ^ 5 * n + w from rfl, hadd, Nat.shiftLeft_eq, Nat.mul_comm]
  apply Nat.eq_of_testBit_eq
  intro i
  rw [Nat.testBit_xor, Nat.testBit_or, Nat.testBit_two_pow_mul]
  -- below the fifth bit the left part has only zeros, and from there on the right part has
  by_cases hi : 5 ≤ i
  · have hpow : 2 ^ 5 ≤ 2 ^ i := Nat.pow_le_pow_right (by decide) hi
    rw [Nat.testBit_lt_two_pow (show w < 2 ^ i by omega), Bool.xor_false, Bool.or_false]
  · rw [decide_eq_false hi, Bool.false_and, Bool.false_xor, Bool.false_or]

theorem toNat_step {r : Residue} (h : r.toNat < 2 ^ 25) (w : Word) :
    (step r w).toNat = 32 * r.toNat + w.toNat := by
  have hw := w.isLt
  have hlt : r.toNat <<< 5 < 2 ^ 30 := by
    rw [Nat.shiftLeft_eq]
    omega
  unfold step
  rw [feedback_of_lt h, BitVec.xor_zero, BitVec.toNat_xor, BitVec.toNat_shiftLeft,
    Nat.mod_eq_of_lt hlt, BitVec.toNat_setWidth_of_le (by decide), shiftLeft_xor_of_lt _ hw]

/-- Up to six words are shifted in without a trace of the generator. -/
theorem toNat_foldl_step {words : List Word} {r : Residue} (hw : words.length ≤ checksumLength)
    (hr : r.toNat < 32 ^ (checksumLength - words.length)) :
    (words.foldl step r).toNat = words.foldl (fun n w => 32 * n + w.toNat) r.toNat := by
  induction words generalizing r with
  | nil => rfl
  | cons w rest ih =>
    rw [List.length_cons] at hw hr
    have hpow : 32 ^ (checksumLength - (rest.length + 1)) ≤ 32 ^ 5 :=
      Nat.pow_le_pow_right (by decide) (by unfold checksumLength; omega)
    have hstep : (step r w).toNat = 32 * r.toNat + w.toNat := toNat_step (by omega) w
    have hnext : (step r w).toNat < 32 ^ (checksumLength - rest.length) := by
      have hsucc : checksumLength - rest.length = checksumLength - (rest.length + 1) + 1 := by omega
      rw [hstep, hsucc, Nat.pow_succ]
      have := w.isLt
      omega
    rw [List.foldl_cons, List.foldl_cons, ih (by omega) hnext, hstep]

theorem toNat_foldl_step_zero {words : List Word} (h : words.length = checksumLength) :
    (words.foldl step 0#30).toNat = words.foldl (fun n w => 32 * n + w.toNat) 0 :=
  toNat_foldl_step (le_of_eq h) (by rw [h]; decide)

theorem residueWords_foldl_step {words : List Word} (h : words.length = checksumLength) :
    residueWords (words.foldl step 0#30) = words := by
  have hvalue := toNat_foldl_step_zero h
  generalize words.foldl step 0#30 = r at hvalue
  match words, h with
  | [a, b, c, d, e, f], _ =>
    have ha := a.isLt
    have hb := b.isLt
    have hc := c.isLt
    have hd := d.isLt
    have he := e.isLt
    have hf := f.isLt
    simp only [List.foldl_cons, List.foldl_nil] at hvalue
    unfold residueWords
    simp only [List.cons.injEq, and_true, ← BitVec.toNat_inj, BitVec.toNat_setWidth,
      BitVec.toNat_ushiftRight, Nat.shiftRight_eq_div_pow]
    omega

theorem foldl_step_residueWords (r : Residue) : (residueWords r).foldl step 0#30 = r := by
  have hr := r.isLt
  apply BitVec.eq_of_toNat_eq
  rw [toNat_foldl_step_zero rfl]
  unfold residueWords
  simp only [List.foldl_cons, List.foldl_nil, BitVec.toNat_setWidth, BitVec.toNat_ushiftRight,
    Nat.shiftRight_eq_div_pow]
  omega

/-! ## The checksum -/

/-- The six words that lead to a residue are the words of what is missing. -/
theorem residue_append_eq_iff {words last : List Word} (h : last.length = checksumLength)
    (target : Residue) :
    residue (words ++ last) = target ↔
      last = residueWords (residue (words ++ List.replicate checksumLength 0#5) ^^^ target) := by
  rw [residue_append, h]
  generalize residue (words ++ List.replicate checksumLength 0#5) = r
  constructor
  · intro e
    rw [← e, ← BitVec.xor_assoc, BitVec.xor_self, BitVec.zero_xor, residueWords_foldl_step h]
  · intro e
    rw [e, foldl_step_residueWords, ← BitVec.xor_assoc, BitVec.xor_self, BitVec.zero_xor]

/-- Words are valid under the first variant exactly if the last six are the checksum of the rest. -/
theorem variant?_eq_bech32_iff {hrp : Bytes} {words last : List Word}
    (h : last.length = checksumLength) :
    variant? hrp (words ++ last) = some .bech32 ↔ last = checksum .bech32 hrp words := by
  unfold variant? checksum
  rw [← List.append_assoc, ← residue_append_eq_iff h]
  dsimp only
  split_ifs with h1 h2
  · exact iff_of_true rfl h1
  · exact iff_of_false nofun h1
  · exact iff_of_false nofun h1

end Restaking.Bech32
