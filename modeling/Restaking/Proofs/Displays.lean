import Restaking.Proofs.Commissions

/-!
# Commissions shown and read back

A commission is shown as the text of its decimal. That text is itself a decimal in the narrow sense,
without signs, which spells the number that it is the text of (`Decimal.spells_text`), and reading
it gives the commission again, if it is one (`shown_commissions_return`).

Writing splits off the whole part and takes the zeros off the end of the fraction, and reading makes
up for the places that are missing. That this comes out even, for all digits and without running out
of bounds, is `Decimal.ofText?_text`.
-/

namespace Restaking

namespace Decimal

open Numeral

/-! ## The text of a decimal -/

theorem isDigit_or_point_of_mem_chars {d : Decimal} {c : Char} (h : c ∈ d.chars) :
    c.isDigit = true ∨ c = '.' := by
  rcases List.mem_append.1 h with hwhole | hrest
  · exact .inl (isDigit_ofNat hwhole)
  · split_ifs at hrest
    · cases hrest
    · rcases List.mem_cons.1 hrest with rfl | hfraction
      · exact .inr rfl
      · exact .inl (isDigit_fractionDigits hfraction)

theorem plus_not_mem_text (d : Decimal) : '+' ∉ d.text.toList := by
  intro h
  rw [text, String.toList_ofList] at h
  rcases isDigit_or_point_of_mem_chars h with hdigit | hpoint
  · exact absurd hdigit (by decide)
  · exact absurd hpoint (by decide)

/-- The text of a decimal spells its value, without signs. -/
theorem spells_text (d : Decimal) : Spells Row d.text.toList d.value := by
  rw [← spells_signedRow_iff d.plus_not_mem_text, ← ofChars?_eq_some_iff]
  exact ofText?_text d

theorem text_inj {d d' : Decimal} (h : d.text = d'.text) : d = d' := by
  have hread := ofText?_text d
  rw [h, ofText?_text] at hread
  exact (Option.some.inj hread).symm

end Decimal

/-! ## Commissions -/

open Decimal (Spells)
open Numeral (Row)

/-- What is shown is read back, up to one. Above one, it is quoted as it is shown. -/
theorem commissionOfText_shown (d : Decimal) :
    commissionOfText d.text =
      if d.value ≤ 1 then .ok d else .error (.badCommission d.text) := by
  unfold commissionOfText checkCommission demand
  rw [Decimal.ofText?_text]
  simp only [← Decimal.value_le_one_iff]
  split_ifs <;> rfl

/-- The text that a decimal is shown as spells its value. It is read as that decimal, if it is at
most one, and is quoted as a bad commission otherwise. Different decimals are shown differently. And
whatever text a commission is read from, it is read from the text that it is shown as as well. -/
theorem shown_commissions_return :
    (∀ d : Decimal, Spells Row d.text.toList d.value ∧ commissionOfText d.text =
        if d.value ≤ 1 then .ok d else .error (.badCommission d.text)) ∧
      (∀ d d' : Decimal, d ≠ d' → d.text ≠ d'.text) ∧
      ∀ text d, commissionOfText text = .ok d → commissionOfText d.text = commissionOfText text := by
  refine ⟨fun d => ⟨d.spells_text, commissionOfText_shown d⟩,
    fun d d' hne htext => hne (Decimal.text_inj htext), fun text d h => ?_⟩
  have hle : d.value ≤ 1 := (commissionOfText_eq_ok_iff_spells.1 h).2
  rw [commissionOfText_shown, if_pos hle, h]

/-- The greatest decimal is shown with all its digits, and refused as it is shown. It is shown
differently from one, which is not refused. A commission that is spelt with more zeros than it is
shown with is the same commission. -/
theorem shown_commissions_return_greatest :
    (∃ d : Decimal, d.units = 2 ^ 128 - 1 ∧
        commissionOfText d.text = .error (.badCommission "340282366920938463463.374607431768211455")) ∧
      (∃ one : Decimal, one.units = Decimal.unitsPerOne ∧ commissionOfText one.text = .ok one ∧
        one.text ≠ "340282366920938463463.374607431768211455") ∧
      ∃ rate, commissionOfText "00.050" = .ok rate ∧ rate.text = "0.05" ∧
        commissionOfText "0.05" = .ok rate := by
  obtain ⟨hshown, hdifferent, hagain⟩ := shown_commissions_return
  let greatest : Decimal := ⟨2 ^ 128 - 1, by decide⟩
  let one : Decimal := ⟨Decimal.unitsPerOne, by decide⟩
  let rate : Decimal := ⟨50000000000000000, by decide⟩
  have htext : greatest.text = "340282366920938463463.374607431768211455" := by decide +kernel
  have hgreatest : ¬ greatest.value ≤ 1 := by
    rw [Decimal.value_le_one_iff]
    decide
  have hone : one.value ≤ 1 := Decimal.value_le_one_iff.2 (Nat.le_refl _)
  have hne : one ≠ greatest := fun h => absurd (congrArg Decimal.units h) (by decide)
  have hrate : commissionOfText "00.050" = .ok rate := toOption_eq_some.1 (by decide +kernel)
  have hratetext : rate.text = "0.05" := by decide +kernel
  refine ⟨⟨greatest, rfl, ?_⟩, ⟨one, rfl, ?_, htext ▸ hdifferent one greatest hne⟩, rate, hrate,
    hratetext, ?_⟩
  · rw [(hshown greatest).2, if_neg hgreatest, htext]
  · rw [(hshown one).2, if_pos hone]
  · rw [← hratetext, hagain "00.050" rate hrate, hrate]

end Restaking
