import Mathlib.Algebra.Order.Field.Basic
import Mathlib.Data.Rat.Cast.Order
import Mathlib.Tactic.FieldSimp
import Mathlib.Tactic.NormNum
import Restaking.Proofs.Numerals
import Restaking.Proofs.Reading

/-!
# Which commissions are accepted

A decimal is spelt with one or more digits, which a point and one to eighteen more may follow
(`Decimal.Spells Numeral.Row`). A commission is a decimal of at most one, and is accepted as the
number that it spells.

Reading takes in a little more. Each of the two rows of digits may carry a plus sign
(`Numeral.SignedRow`), and the sign of a fraction takes up one of its places. So `0.+5` is accepted,
as five hundredths, although it is no decimal (`accepts_sign_in_fraction`). Texts without a plus sign
are accepted exactly if they are decimals of at most one (`commissionOfText_iff`).
-/

namespace Restaking

namespace Numeral

/-! ## Rows of digits -/

/-- One or more digits, and the number that they denote. -/
inductive Row : List Char → Nat → Prop
  | digits {cs : List Char} (hne : cs ≠ []) (h : ∀ c ∈ cs, c.isDigit = true) :
      Row cs (Nat.ofDigitChars 10 cs 0)

/-- A row of digits, with a plus sign in front or not. -/
inductive SignedRow : List Char → Nat → Prop
  | plain {cs : List Char} {n : Nat} (h : Row cs n) : SignedRow cs n
  | plus {cs : List Char} {n : Nat} (h : Row cs n) : SignedRow ('+' :: cs) n

theorem isDigit_of_digit? {c : Char} {d : Nat} (h : digit? c = some d) : c.isDigit = true := by
  unfold digit? at h
  split_ifs at h with hc
  exact Char.isDigit_iff_toNat.2 hc

theorem isDigit_of_valueFrom? {acc n : Nat} {cs : List Char} (h : valueFrom? acc cs = some n) :
    ∀ c ∈ cs, c.isDigit = true := by
  induction cs generalizing acc with
  | nil => exact fun c hc => absurd hc List.not_mem_nil
  | cons c rest ih =>
    obtain ⟨d, hd, hrest⟩ := Option.bind_eq_some_iff.1 h
    exact List.forall_mem_cons.2 ⟨isDigit_of_digit? hd, ih hrest⟩

theorem value?_eq_some_iff {cs : List Char} {n : Nat} : value? cs = some n ↔ Row cs n := by
  constructor
  · intro h
    cases cs with
    | nil => cases h
    | cons c rest =>
      have hdigits := isDigit_of_valueFrom? h
      rw [value?_of_digits (List.cons_ne_nil c rest) hdigits] at h
      obtain rfl := Option.some.inj h
      exact .digits (List.cons_ne_nil c rest) hdigits
  · rintro ⟨hne, hdigits⟩
    exact value?_of_digits hne hdigits

theorem Row.not_plus {cs : List Char} {n : Nat} : ¬ Row ('+' :: cs) n := by
  rintro ⟨_, h⟩
  exact absurd (h '+' List.mem_cons_self) (by decide)

theorem signed?_eq_some_iff {cs : List Char} {n : Nat} : signed? cs = some n ↔ SignedRow cs n := by
  unfold signed?
  split
  · rw [value?_eq_some_iff]
    refine ⟨.plus, ?_⟩
    rintro (h | h)
    · exact absurd h Row.not_plus
    · exact h
  · next hplus =>
    rw [value?_eq_some_iff]
    refine ⟨.plain, ?_⟩
    rintro (h | h)
    · exact h
    · exact absurd rfl (hplus _)

/-- A row of digits with a sign consists of digits and the sign. -/
theorem SignedRow.forall_mem {cs : List Char} {n : Nat} (h : SignedRow cs n) :
    ∀ c ∈ cs, c.isDigit = true ∨ c = '+' := by
  rcases h with ⟨_, h⟩ | ⟨_, h⟩
  · exact fun c hc => .inl (h c hc)
  · exact List.forall_mem_cons.2 ⟨.inr rfl, fun c hc => .inl (h c hc)⟩

theorem signedRow_iff_row {cs : List Char} {n : Nat} (hplus : '+' ∉ cs) :
    SignedRow cs n ↔ Row cs n := by
  refine ⟨?_, .plain⟩
  rintro (h | h)
  · exact h
  · exact absurd List.mem_cons_self hplus

end Numeral

/-! ## Decimals -/

namespace Decimal

open Numeral

/-- The number that a decimal is. -/
def value (d : Decimal) : ℚ := d.units / 10 ^ 18

/-- The characters spell a number as a decimal: a row of digits for the whole part, and possibly a
point and a row of at most eighteen characters for the fraction. What rows there are is left open. -/
inductive Spells (row : List Char → Nat → Prop) : List Char → ℚ → Prop
  | whole {cs : List Char} {n : Nat} (h : row cs n) : Spells row cs n
  | point {cs after : List Char} {n m : Nat} (h : row cs n) (hafter : row after m)
      (hlength : after.length ≤ 18) : Spells row (cs ++ '.' :: after) (n + m / 10 ^ after.length)

theorem cast_unitsPerOne : (unitsPerOne : ℚ) = 10 ^ 18 := by
  norm_num [unitsPerOne, places]

theorem value_eq_iff {d : Decimal} {q : ℚ} : d.value = q ↔ (d.units : ℚ) = q * 10 ^ 18 := by
  unfold value
  exact div_eq_iff (by positivity)

theorem value_le_one_iff {d : Decimal} : d.value ≤ 1 ↔ d.units ≤ unitsPerOne := by
  unfold value
  rw [div_le_one (by positivity), ← cast_unitsPerOne, Nat.cast_le]

/-- A fraction counts in units of the last place. -/
theorem fraction_units (n m : Nat) {length : Nat} (h : length ≤ 18) :
    ((n : ℚ) + m / 10 ^ length) * 10 ^ 18 =
      ((n * unitsPerOne + m * Nat.pow 10 (places - length) : Nat) : ℚ) := by
  have hsplit : (10 : ℚ) ^ 18 = 10 ^ length * 10 ^ (places - length) := by
    rw [← pow_add, show length + (places - length) = 18 from Nat.add_sub_cancel' h]
  push_cast
  rw [cast_unitsPerOne, add_mul, Nat.pow_eq, Nat.cast_pow]
  congr 1
  rw [hsplit]
  field_simp
  norm_num

theorem ofUnits?_eq_some_iff {units : Nat} {d : Decimal} :
    ofUnits? units = some d ↔ d.units = units := by
  constructor
  · intro h
    unfold ofUnits? at h
    split_ifs at h
    obtain rfl := Option.some.inj h
    rfl
  · rintro rfl
    exact ofUnits?_units d

theorem fraction?_eq_some_iff {cs : List Char} {f : Nat} :
    fraction? cs = some f ↔
      ∃ m, SignedRow cs m ∧ cs.length ≤ 18 ∧ f = m * Nat.pow 10 (places - cs.length) := by
  unfold fraction?
  rw [Option.bind_eq_some_iff]
  refine exists_congr fun m => ?_
  rw [signed?_eq_some_iff, Option.ite_none_right_eq_some, Option.some.injEq, eq_comm (a := f)]
  rfl

theorem not_point_of_signedRow {cs : List Char} {n : Nat} (h : SignedRow cs n) :
    ∀ c ∈ cs, decide (c ≠ '.') = true := by
  intro c hc
  rcases h.forall_mem c hc with hdigit | rfl
  · exact decide_eq_true (ne_of_isDigit hdigit (by decide))
  · decide

/-- A decimal is read from the texts that spell its value with signed rows. -/
theorem ofChars?_eq_some_iff {cs : List Char} {d : Decimal} :
    ofChars? cs = some d ↔ Spells SignedRow cs d.value := by
  constructor
  · intro h
    have hcs := List.takeWhile_append_dropWhile (p := fun c => decide (c ≠ '.')) (l := cs)
    obtain ⟨n, hn, h⟩ := Option.bind_eq_some_iff.1 h
    rw [signed?_eq_some_iff] at hn
    cases hafter : cs.dropWhile (· ≠ '.') with
    | nil =>
      rw [hafter, List.append_nil] at hcs
      rw [hafter] at h
      rw [hcs] at hn
      have hvalue : d.value = n := by
        rw [value_eq_iff, ofUnits?_eq_some_iff.1 h, Nat.cast_mul, cast_unitsPerOne]
      rw [hvalue]
      exact .whole hn
    | cons c after =>
      have hpoint : c = '.' := by
        have hhead := List.head?_dropWhile_not (fun c => decide (c ≠ '.')) cs
        rw [hafter] at hhead
        simpa using hhead
      rw [hafter] at h
      obtain ⟨f, hf, h⟩ := Option.bind_eq_some_iff.1 h
      obtain ⟨m, hm, hlength, rfl⟩ := fraction?_eq_some_iff.1 hf
      have hvalue : d.value = n + m / 10 ^ after.length := by
        rw [value_eq_iff, ofUnits?_eq_some_iff.1 h, fraction_units n m hlength]
      rw [hvalue, ← hcs, hafter, hpoint]
      exact .point hn hm hlength
  · intro h
    generalize hq : d.value = q at h
    rw [value_eq_iff] at hq
    cases h with
    | whole hn =>
      rw [ofChars?_whole (not_point_of_signedRow hn) (signed?_eq_some_iff.2 hn),
        ofUnits?_eq_some_iff]
      rw [← cast_unitsPerOne, ← Nat.cast_mul] at hq
      exact Nat.cast_injective hq
    | point hn hm hlength =>
      rw [ofChars?_point (not_point_of_signedRow hn) (signed?_eq_some_iff.2 hn)
        (fraction?_eq_some_iff.2 ⟨_, hm, hlength, rfl⟩), ofUnits?_eq_some_iff]
      rw [fraction_units _ _ hlength] at hq
      exact Nat.cast_injective hq

/-- What is spelt is a decimal, unless it is out of bounds. -/
theorem exists_value_eq {row : List Char → Nat → Prop} {cs : List Char} {q : ℚ}
    (h : Spells row cs q) (hq : q ≤ 1) : ∃ d : Decimal, d.value = q := by
  have hunits : ∃ units : Nat, q * 10 ^ 18 = units := by
    cases h with
    | whole hn => exact ⟨_, by rw [← cast_unitsPerOne, ← Nat.cast_mul]⟩
    | point hn hm hlength => exact ⟨_, fraction_units _ _ hlength⟩
  obtain ⟨units, hunits⟩ := hunits
  have hle : units ≤ unitsPerOne := by
    rw [← Nat.cast_le (α := ℚ), ← hunits, cast_unitsPerOne]
    exact mul_le_of_le_one_left (by positivity) hq
  exact ⟨⟨units, Nat.lt_of_le_of_lt hle (by decide)⟩, value_eq_iff.2 hunits.symm⟩

/-- A decimal has no plus sign in it. -/
theorem Spells.not_plus {cs : List Char} {q : ℚ} (h : Spells Row cs q) : '+' ∉ cs := by
  have hrow : ∀ {cs n}, Row cs n → '+' ∉ cs := by
    rintro cs n ⟨_, hdigits⟩ hmem
    exact absurd (hdigits '+' hmem) (by decide)
  cases h with
  | whole h => exact hrow h
  | point h hafter hlength =>
    rw [List.mem_append, List.mem_cons, not_or, not_or]
    exact ⟨hrow h, by decide, hrow hafter⟩

theorem spells_signedRow_iff {cs : List Char} {q : ℚ} (hplus : '+' ∉ cs) :
    Spells SignedRow cs q ↔ Spells Row cs q := by
  constructor
  · rintro (h | ⟨h, hafter, hlength⟩)
    · exact .whole ((signedRow_iff_row hplus).1 h)
    · rw [List.mem_append, List.mem_cons, not_or, not_or] at hplus
      exact .point ((signedRow_iff_row hplus.1).1 h) ((signedRow_iff_row hplus.2.2).1 hafter)
        hlength
  · rintro (h | ⟨h, hafter, hlength⟩)
    · exact .whole (.plain h)
    · exact .point (.plain h) (.plain hafter) hlength

end Decimal

/-! ## Commissions -/

open Decimal (Spells)
open Numeral (Row SignedRow)

theorem commissionOfText_eq_ok_iff_spells {text : String} {rate : Decimal} :
    commissionOfText text = .ok rate ↔ Spells SignedRow text.toList rate.value ∧ rate.value ≤ 1 := by
  rw [commissionOfText_eq_ok, checkCommission, demand_eq_ok, Decimal.value_le_one_iff]
  exact and_congr_left fun _ => Decimal.ofChars?_eq_some_iff

theorem commissionOfText_eq_error {text : String} {e : StakingError}
    (h : commissionOfText text = .error e) : ∃ quoted, e = .badCommission quoted := by
  unfold commissionOfText at h
  split at h
  · exact ⟨text, (Except.error.inj h).symm⟩
  · next rate _ =>
    unfold checkCommission demand at h
    split_ifs at h
    · cases h
    · exact ⟨rate.text, (Except.error.inj h).symm⟩

/-- A commission is accepted, as the number that its text spells, if and only if that number is at
most one; any other text is a bad commission. What is spelt is read with plus signs. Without one, it
is a decimal. -/
theorem commissionOfText_iff (text : String) :
    (∀ rate, commissionOfText text = .ok rate ↔
        Spells SignedRow text.toList rate.value ∧ rate.value ≤ 1) ∧
      ((∃ rate, commissionOfText text = .ok rate) ↔
        ∃ q, Spells SignedRow text.toList q ∧ q ≤ 1) ∧
      ((∃ quoted, commissionOfText text = .error (.badCommission quoted)) ↔
        ¬ ∃ q, Spells SignedRow text.toList q ∧ q ≤ 1) ∧
      ('+' ∉ text.toList → ∀ q, Spells SignedRow text.toList q ↔ Spells Row text.toList q) := by
  have haccepted : (∃ rate, commissionOfText text = .ok rate) ↔
      ∃ q, Spells SignedRow text.toList q ∧ q ≤ 1 := by
    constructor
    · rintro ⟨rate, h⟩
      exact ⟨rate.value, commissionOfText_eq_ok_iff_spells.1 h⟩
    · rintro ⟨q, hq, hle⟩
      obtain ⟨rate, rfl⟩ := Decimal.exists_value_eq hq hle
      exact ⟨rate, commissionOfText_eq_ok_iff_spells.2 ⟨hq, hle⟩⟩
  refine ⟨fun rate => commissionOfText_eq_ok_iff_spells, haccepted, ?_,
    fun hplus q => Decimal.spells_signedRow_iff hplus⟩
  rw [← haccepted]
  constructor
  · rintro ⟨quoted, h⟩ ⟨rate, hok⟩
    rw [h] at hok
    cases hok
  · intro hno
    cases h : commissionOfText text with
    | ok rate => exact absurd ⟨rate, h⟩ hno
    | error e =>
      obtain ⟨quoted, rfl⟩ := commissionOfText_eq_error h
      exact ⟨quoted, rfl⟩

/-- A commission without a sign. -/
theorem commissionOfText_iff_unsigned :
    '+' ∉ "0.05".toList ∧ (∃ rate, commissionOfText "0.05" = .ok rate) ∧
      ∃ q, Spells Row "0.05".toList q ∧ q ≤ 1 := by
  obtain ⟨_, haccepted, _, hunsigned⟩ := commissionOfText_iff "0.05"
  have hplus : '+' ∉ "0.05".toList := by decide
  have hread : (commissionOfText "0.05").toOption.isSome = true := by decide +kernel
  obtain ⟨rate, hrate⟩ := Option.isSome_iff_exists.1 hread
  have hok := toOption_eq_some.1 hrate
  obtain ⟨q, hq, hle⟩ := haccepted.1 ⟨rate, hok⟩
  exact ⟨hplus, ⟨rate, hok⟩, q, (hunsigned hplus q).1 hq, hle⟩

/-- A text that is no decimal is accepted as five hundredths. -/
theorem accepts_sign_in_fraction :
    (∃ rate, commissionOfText "0.+5" = .ok rate ∧ rate.value = 5 / 100) ∧
      ¬ ∃ q, Spells Row "0.+5".toList q := by
  constructor
  · refine ⟨⟨50000000000000000, by decide⟩, toOption_eq_some.1 (by decide +kernel), ?_⟩
    norm_num [Decimal.value]
  · rintro ⟨q, hq⟩
    exact hq.not_plus (by decide)

end Restaking
