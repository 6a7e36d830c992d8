import Restaking.Decimal
import Mathlib.Data.List.TakeWhile
import Mathlib.Tactic.SplitIfs

/-!
# Numbers read back

Numerals and decimals are read as what was written. Everything rests on the value of a row of digits
(`Nat.ofDigitChars`), on which reading and writing agree. A decimal loses the zeros at its end when
it is written; that divides the value of its fraction by the power of ten that reading multiplies it
by again (`ofDigitChars_fractionDigits`).
-/

namespace Restaking

namespace Numeral

/-! ## Rows of digits -/

theorem isDigit_ofNat {n : Nat} {c : Char} (h : c ∈ ofNat n) : c.isDigit = true :=
  Nat.isDigit_of_mem_toDigits (by decide) (by decide) h

theorem ofNat_ne_nil (n : Nat) : ofNat n ≠ [] := Nat.toDigits_ne_nil

theorem digit?_of_isDigit {c : Char} (h : c.isDigit = true) :
    digit? c = some (c.toNat - '0'.toNat) := by
  obtain ⟨h0, h9⟩ := Char.isDigit_iff_toNat.1 h
  exact if_pos ⟨h0, h9⟩

theorem valueFrom?_of_digits {digits : List Char} (h : ∀ c ∈ digits, c.isDigit = true) (acc : Nat) :
    valueFrom? acc digits = some (Nat.ofDigitChars 10 digits acc) := by
  induction digits generalizing acc with
  | nil => rfl
  | cons c rest ih =>
    obtain ⟨hc, hrest⟩ := List.forall_mem_cons.1 h
    rw [valueFrom?, digit?_of_isDigit hc, Option.bind_some, ih hrest, Nat.ofDigitChars_cons]

theorem value?_of_digits {digits : List Char} (hne : digits ≠ [])
    (h : ∀ c ∈ digits, c.isDigit = true) :
    value? digits = some (Nat.ofDigitChars 10 digits 0) := by
  cases digits with
  | nil => exact absurd rfl hne
  | cons c rest => exact valueFrom?_of_digits h 0

theorem value?_ofNat (n : Nat) : value? (ofNat n) = some n := by
  rw [value?_of_digits (ofNat_ne_nil n) fun c => isDigit_ofNat]
  exact congrArg some (Nat.ofDigitChars_toDigits (by decide) (by decide))

theorem ne_of_isDigit {c d : Char} (hc : c.isDigit = true) (hd : d.isDigit = false) : c ≠ d := by
  rintro rfl
  rw [hc] at hd
  cases hd

/-! ## Numerals -/

/-- No numeral but that of zero begins with a zero. -/
theorem head?_ofNat {n : Nat} (h : 0 < n) : (ofNat n).head? ≠ some '0' := by
  induction n using Nat.strongRecOn with
  | ind n ih =>
    unfold ofNat at *
    by_cases hn : n < 10
    · have hdigit : ∀ k : Fin 10, 0 < k.val → [Nat.digitChar k].head? ≠ some '0' := by decide
      rw [Nat.toDigits_of_lt_base hn]
      exact hdigit ⟨n, hn⟩ h
    · -- the first digit of a longer numeral is that of the part before its last digit
      have hrest := ih (n / 10) (by omega) (by omega)
      rw [Nat.toDigits_of_base_le (by decide) (by omega), List.head?_append]
      cases hd : Nat.toDigits 10 (n / 10) with
      | nil => exact absurd hd Nat.toDigits_ne_nil
      | cons c rest =>
        rw [hd] at hrest
        exact hrest

theorem canonical?_ofNat (n : Nat) : canonical? (ofNat n) = some n := by
  have hvalue := value?_ofNat n
  by_cases hn : n = 0
  · subst hn
    rfl
  · have hhead := head?_ofNat (Nat.pos_of_ne_zero hn)
    generalize ofNat n = digits at hvalue hhead
    unfold canonical?
    split
    · exact absurd rfl hhead
    · exact absurd rfl hhead
    · exact hvalue

theorem canonicalInt?_ofInt (i : Int) : canonicalInt? (ofInt i) = some i := by
  cases i with
  | ofNat n =>
    have hcanonical := canonical?_ofNat n
    have hdigits : ∀ c ∈ ofNat n, c.isDigit = true := fun c => isDigit_ofNat
    rw [ofInt]
    generalize ofNat n = digits at hcanonical hdigits
    unfold canonicalInt?
    split
    · exact absurd (hdigits '-' List.mem_cons_self) (by decide)
    · rw [hcanonical]
      rfl
  | negSucc n =>
    rw [ofInt, canonicalInt?, canonical?_ofNat]
    rfl

theorem signed?_of_digits {digits : List Char} (hne : digits ≠ [])
    (h : ∀ c ∈ digits, c.isDigit = true) :
    signed? digits = some (Nat.ofDigitChars 10 digits 0) := by
  have hvalue := value?_of_digits hne h
  unfold signed?
  split
  · exact absurd (h '+' List.mem_cons_self) (by decide)
  · exact hvalue

theorem signed?_ofNat (n : Nat) : signed? (ofNat n) = some n := by
  rw [signed?_of_digits (ofNat_ne_nil n) fun c => isDigit_ofNat]
  exact congrArg some (Nat.ofDigitChars_toDigits (by decide) (by decide))

theorem isDigit_padded {width n : Nat} {c : Char} (h : c ∈ padded width n) : c.isDigit = true := by
  rcases List.mem_append.1 h with h | h
  · rw [List.eq_of_mem_replicate h]
    rfl
  · exact isDigit_ofNat h

theorem ofDigitChars_padded (width n : Nat) : Nat.ofDigitChars 10 (padded width n) 0 = n := by
  unfold padded ofNat
  rw [Nat.ofDigitChars_append, Nat.ofDigitChars_replicate_zero, Nat.mul_zero,
    Nat.ofDigitChars_toDigits (by decide) (by decide)]

theorem length_padded {width n : Nat} (hw : 0 < width) (h : n < Nat.pow 10 width) :
    (padded width n).length = width := by
  have hle : (ofNat n).length ≤ width := (Nat.length_toDigits_le_iff (by decide) hw).2 h
  unfold padded
  rw [List.length_append, List.length_replicate]
  omega

theorem padded_ne_nil (width n : Nat) : padded width n ≠ [] :=
  List.append_ne_nil_of_right_ne_nil _ (ofNat_ne_nil n)

theorem padded_inj {width n m : Nat} (h : padded width n = padded width m) : n = m := by
  rw [← ofDigitChars_padded width n, h, ofDigitChars_padded]

/-- Numbers of so many digits are told apart whatever follows them. -/
theorem padded_append_inj {width n m : Nat} (hw : 0 < width) (hn : n < Nat.pow 10 width)
    (hm : m < Nat.pow 10 width) {rest rest' : List Char}
    (h : padded width n ++ rest = padded width m ++ rest') : n = m ∧ rest = rest' := by
  have hlength : (padded width n).length = (padded width m).length := by
    rw [length_padded hw hn, length_padded hw hm]
  obtain ⟨hdigits, hrest⟩ := List.append_inj h hlength
  exact ⟨padded_inj hdigits, hrest⟩

end Numeral

/-! ## Decimals -/

namespace Decimal

open Numeral

/-- Rows of digits with the zeros at their end taken off. -/
theorem exists_eq_append_zeros (digits : List Char) :
    ∃ k, digits = (digits.reverse.dropWhile (· = '0')).reverse ++ List.replicate k '0' := by
  have hsplit := List.takeWhile_append_dropWhile (p := fun c => decide (c = '0'))
    (l := digits.reverse)
  have hzeros : digits.reverse.takeWhile (· = '0') =
      List.replicate (digits.reverse.takeWhile (· = '0')).length '0' := by
    rw [List.eq_replicate_iff]
    refine ⟨rfl, fun c hc => ?_⟩
    have hall := List.all_takeWhile (p := fun c => decide (c = '0')) (l := digits.reverse)
    exact of_decide_eq_true (List.all_eq_true.1 hall c hc)
  refine ⟨(digits.reverse.takeWhile (· = '0')).length, ?_⟩
  rw [← List.reverse_replicate, ← hzeros, ← List.reverse_append, hsplit, List.reverse_reverse]

theorem isDigit_fractionDigits {f : Nat} {c : Char} (h : c ∈ fractionDigits f) :
    c.isDigit = true := by
  have hmem := List.mem_reverse.1 h
  exact isDigit_padded (List.mem_reverse.1 ((List.dropWhile_sublist _).subset hmem))

/-- The zeros that are taken off are made up for by the places that are missing. -/
theorem ofDigitChars_fractionDigits {f : Nat} (h : f < unitsPerOne) :
    (fractionDigits f).length ≤ places ∧
      Nat.ofDigitChars 10 (fractionDigits f) 0 * Nat.pow 10 (places - (fractionDigits f).length) =
        f := by
  obtain ⟨k, hk⟩ := exists_eq_append_zeros (padded places f)
  have hlength : (fractionDigits f).length + k = places := by
    rw [← length_padded (by decide) h, hk, List.length_append, List.length_replicate]
    rfl
  have hvalue := ofDigitChars_padded places f
  rw [hk, Nat.ofDigitChars_append, Nat.ofDigitChars_replicate_zero] at hvalue
  refine ⟨by omega, ?_⟩
  rw [show places - (fractionDigits f).length = k by omega, Nat.mul_comm]
  exact hvalue

theorem fraction?_fractionDigits {f : Nat} (hpos : 0 < f) (h : f < unitsPerOne) :
    fraction? (fractionDigits f) = some f := by
  obtain ⟨hlength, hvalue⟩ := ofDigitChars_fractionDigits h
  have hne : fractionDigits f ≠ [] := by
    intro hnil
    rw [hnil, Nat.ofDigitChars_nil] at hvalue
    omega
  unfold fraction?
  rw [signed?_of_digits hne fun c => isDigit_fractionDigits, Option.bind_some, if_pos hlength]
  exact congrArg some hvalue

theorem ofUnits?_units (d : Decimal) : ofUnits? d.units = some d := dif_pos d.units_lt

theorem unitsPerOne_pos : 0 < unitsPerOne := Nat.pow_pos (by decide)

/-- A whole part alone is read as that many ones. -/
theorem ofChars?_whole {whole : List Char} {n : Nat}
    (hdigits : ∀ c ∈ whole, decide (c ≠ '.') = true) (hn : signed? whole = some n) :
    ofChars? whole = ofUnits? (n * unitsPerOne) := by
  have htake : whole.takeWhile (· ≠ '.') = whole := List.takeWhile_eq_self_iff.2 hdigits
  have hdrop : whole.dropWhile (· ≠ '.') = [] := List.dropWhile_eq_nil_iff.2 hdigits
  rw [ofChars?, htake, hdrop, hn, Option.bind_eq_bind, Option.bind_some]

/-- What stands after the point is added to the whole part. -/
theorem ofChars?_point {whole after : List Char} {n f : Nat}
    (hdigits : ∀ c ∈ whole, decide (c ≠ '.') = true) (hn : signed? whole = some n)
    (hf : fraction? after = some f) :
    ofChars? (whole ++ '.' :: after) = ofUnits? (n * unitsPerOne + f) := by
  have htake : (whole ++ '.' :: after).takeWhile (· ≠ '.') = whole := by
    rw [List.takeWhile_append_of_pos hdigits, List.takeWhile_cons_of_neg (by decide),
      List.append_nil]
  have hdrop : (whole ++ '.' :: after).dropWhile (· ≠ '.') = '.' :: after := by
    rw [List.dropWhile_append_of_pos hdigits, List.dropWhile_cons_of_neg (by decide)]
  rw [ofChars?, htake, hdrop, hn, Option.bind_eq_bind, Option.bind_some]
  change (fraction? after >>= fun f => ofUnits? (n * unitsPerOne + f)) = _
  rw [hf, Option.bind_eq_bind, Option.bind_some]

/-- A decimal is read back from the text that it is written as. -/
theorem ofText?_text (d : Decimal) : ofText? d.text = some d := by
  have hdigits : ∀ c ∈ ofNat (d.units / unitsPerOne), decide (c ≠ '.') = true := fun c hc =>
    decide_eq_true (ne_of_isDigit (isDigit_ofNat hc) (by decide))
  have hwhole := signed?_ofNat (d.units / unitsPerOne)
  have hsum : d.units / unitsPerOne * unitsPerOne + d.units % unitsPerOne = d.units :=
    Nat.div_add_mod' _ _
  unfold ofText? text chars
  rw [String.toList_ofList]
  split_ifs with hf
  · rw [hf, Nat.add_zero] at hsum
    rw [List.append_nil, ofChars?_whole hdigits hwhole, hsum, ofUnits?_units]
  · have hlt : d.units % unitsPerOne < unitsPerOne := Nat.mod_lt _ unitsPerOne_pos
    have hfraction := fraction?_fractionDigits (Nat.pos_of_ne_zero hf) hlt
    rw [ofChars?_point hdigits hwhole hfraction, hsum, ofUnits?_units]

end Decimal

end Restaking
