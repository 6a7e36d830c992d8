import Restaking.Proofs.Numerals
import Restaking.Timestamp

/-!
# The calendar

Dates are computed in eras of 400 years, by a formula for the year of the era. Here they are held
against the rule of the Gregorian calendar itself: a year has 365 days, every fourth has one more,
but not every hundredth, unless it is a four hundredth (`Date.firstOfMarch`). A date is that of the
day which it denotes by this rule (`Date.dayNumber_ofDayNumber`), so different days have different
dates, and different texts as well (`Date.chars_inj`).

1. The years of an era have the lengths that the rule gives them (`Date.dayOfEra_bounds`), so every
   day is told by a year and its position in that year (`Date.exists_dayOfYear`).
2. The position is told by a month and a day (`Date.dayNumber_ofDayOfYear`).
3. Month and day take two digits each, so the text of the year is what stands before them.
-/

namespace Restaking

namespace Date

open Numeral

/-! ## Years -/

/-- The number of the first of March of a year. -/
def firstOfMarch (year : Int) : Int :=
  365 * year + year / 4 - year / 100 + year / 400 - 719468

/-- The years of an era are counted by themselves. -/
theorem firstOfMarch_of_era (era : Int) {year : Nat} (h : year < 400) :
    firstOfMarch (era * 400 + year) =
      146097 * era + (365 * year + year / 4 - year / 100 : Nat) - 719468 := by
  unfold firstOfMarch
  omega

section Era

variable {day year : Nat} (hday : day < 146097)
  (hyear : year = (day - day / 1460 + day / 36524 - day / 146096) / 365)

include hday hyear

/-- The centuries of an era have 36524 days, but the last one has one more. -/
theorem century_eq : year / 100 = day / 36524 - day / 146096 := by
  have hcentury : day / 36524 = 0 ∨ day / 36524 = 1 ∨ day / 36524 = 2 ∨ day / 36524 = 3 ∨
      day / 36524 = 4 := by omega
  rcases hcentury with h | h | h | h | h <;> omega

/-- Four years have 1460 days, but for the days that are added. -/
theorem fourYears_bounds : year / 4 ≤ day / 1460 ∧ day / 1460 ≤ year / 4 + 1 := by
  constructor <;> omega

/-- A day of an era lies in the year that it is given, which is one of 400. -/
theorem dayOfEra_bounds :
    year < 400 ∧ 365 * year + year / 4 - year / 100 ≤ day ∧
      day ≤ 365 * year + year / 4 - year / 100 + 365 := by
  have hcentury := century_eq hday hyear
  obtain ⟨hle, hge⟩ := fourYears_bounds hday hyear
  refine ⟨?_, ?_, ?_⟩ <;> omega

end Era

/-! ## Months -/

/-- The days of a year before one of its months, the first month being March. -/
def daysBefore (month : Nat) : Nat := (153 * month + 2) / 5

/-- The date of a day of a year, years being counted from the first of March. -/
def ofDayOfYear (year : Int) (day : Nat) : Date :=
  let marchMonth := (5 * day + 2) / 153
  let month := if marchMonth < 10 then marchMonth + 3 else marchMonth - 9
  { year := year + (if month ≤ 2 then 1 else 0)
    month := month
    day := day - daysBefore marchMonth + 1 }

/-- The number of the day that a date denotes. January and February belong to the year that began
in March before. -/
def dayNumber (d : Date) : Int :=
  if d.month ≤ 2 then firstOfMarch (d.year - 1) + daysBefore (d.month + 9) + d.day - 1
  else firstOfMarch d.year + daysBefore (d.month - 3) + d.day - 1

/-- The date of a day of an era, from its year and its position in that year. -/
theorem ofDayNumber_eq {number era : Int} {day year : Nat} (hera : era = (number + 719468) / 146097)
    (hday : day = ((number + 719468) % 146097).toNat)
    (hyear : year = (day - day / 1460 + day / 36524 - day / 146096) / 365) :
    ofDayNumber number =
      ofDayOfYear (era * 400 + year) (day - (365 * year + year / 4 - year / 100)) := by
  subst hera hyear hday
  unfold ofDayNumber ofDayOfYear daysBefore
  dsimp only

/-- Every day is a day of some year. -/
theorem exists_dayOfYear (number : Int) :
    ∃ (year : Int) (day : Nat), day ≤ 365 ∧ number = firstOfMarch year + day ∧
      ofDayNumber number = ofDayOfYear year day := by
  obtain ⟨era, hera⟩ : ∃ era, era = (number + 719468) / 146097 := ⟨_, rfl⟩
  obtain ⟨day, hday⟩ : ∃ day, day = ((number + 719468) % 146097).toNat := ⟨_, rfl⟩
  obtain ⟨year, hyear⟩ :
      ∃ year, year = (day - day / 1460 + day / 36524 - day / 146096) / 365 := ⟨_, rfl⟩
  have hdate := ofDayNumber_eq hera hday hyear
  have hnumber : number + 719468 = 146097 * era + day ∧ day < 146097 := by omega
  obtain ⟨hlt, hle, hge⟩ := dayOfEra_bounds hnumber.2 hyear
  have hfirst := firstOfMarch_of_era era hlt
  clear hera hday hyear
  exact ⟨_, _, by omega, by omega, hdate⟩

theorem dayNumber_ofDayOfYear (year : Int) {day : Nat} (h : day ≤ 365) :
    (ofDayOfYear year day).dayNumber = firstOfMarch year + day := by
  have hstart : daysBefore ((5 * day + 2) / 153) ≤ day := by
    unfold daysBefore
    omega
  have hmonth : (5 * day + 2) / 153 ≤ 11 := by omega
  unfold dayNumber ofDayOfYear
  generalize (5 * day + 2) / 153 = marchMonth at hstart hmonth
  by_cases hmarch : marchMonth < 10
  · have hlate : ¬ marchMonth + 3 ≤ 2 := by omega
    simp only [if_pos hmarch, if_neg hlate, Int.add_zero, Nat.add_sub_cancel]
    omega
  · have hearly : marchMonth - 9 ≤ 2 := by omega
    have hback : marchMonth - 9 + 9 = marchMonth := by omega
    simp only [if_neg hmarch, if_pos hearly, hback, Int.add_sub_cancel]
    omega

/-- The date of a day denotes that day. -/
theorem dayNumber_ofDayNumber (number : Int) : (ofDayNumber number).dayNumber = number := by
  obtain ⟨year, day, hday, hnumber, hdate⟩ := exists_dayOfYear number
  rw [hdate, dayNumber_ofDayOfYear year hday, hnumber]

theorem ofDayNumber_inj {number number' : Int} (h : ofDayNumber number = ofDayNumber number') :
    number = number' := by
  rw [← dayNumber_ofDayNumber number, h, dayNumber_ofDayNumber]

/-- Month and day of a date take two digits. -/
theorem ofDayNumber_bounds (number : Int) :
    (ofDayNumber number).month ≤ 12 ∧ (ofDayNumber number).day ≤ 31 := by
  obtain ⟨year, day, hday, _, hdate⟩ := exists_dayOfYear number
  rw [hdate]
  unfold ofDayOfYear daysBefore
  dsimp only
  constructor
  · split_ifs <;> omega
  · omega

/-! ## Texts -/

/-- The sign that a year is written with, if it is written with one. -/
def signChars (year : Int) : List Char :=
  if 0 ≤ year ∧ year ≤ 9999 then [] else if year < 0 then ['-'] else ['+']

theorem yearChars_eq (year : Int) :
    yearChars year = signChars year ++ padded 4 year.natAbs := by
  unfold yearChars signChars
  split_ifs with h hneg
  · rw [List.nil_append, show year.toNat = year.natAbs by omega]
  · rfl
  · rfl

theorem isDigit_signChars {year : Int} : ∀ c ∈ signChars year, (!c.isDigit) = true := by
  unfold signChars
  split_ifs <;> simp

theorem minus_mem_signChars {year : Int} : '-' ∈ signChars year ↔ year < 0 := by
  unfold signChars
  split_ifs with h hneg
  · simp only [List.not_mem_nil, false_iff]
    omega
  · simp [hneg]
  · simp [hneg]

/-- The sign is what stands before the digits. -/
theorem takeWhile_yearChars (year : Int) :
    (yearChars year).takeWhile (!·.isDigit) = signChars year := by
  have hdigits : (padded 4 year.natAbs).takeWhile (!·.isDigit) = [] := by
    obtain ⟨c, rest, hcons⟩ := List.exists_cons_of_ne_nil (padded_ne_nil 4 year.natAbs)
    have hc : c.isDigit = true := isDigit_padded (hcons ▸ List.mem_cons_self)
    rw [hcons, List.takeWhile_cons_of_neg (by rw [hc]; decide)]
  rw [yearChars_eq, List.takeWhile_append_of_pos isDigit_signChars, hdigits, List.append_nil]

theorem yearChars_inj {year year' : Int} (h : yearChars year = yearChars year') : year = year' := by
  have hsign : signChars year = signChars year' := by
    rw [← takeWhile_yearChars, h, takeWhile_yearChars]
  rw [yearChars_eq, yearChars_eq, hsign] at h
  have habs : year.natAbs = year'.natAbs := padded_inj (List.append_cancel_left h)
  have hneg : year < 0 ↔ year' < 0 := by rw [← minus_mem_signChars, hsign, minus_mem_signChars]
  omega

/-- Dates whose months and days have two digits at most are told apart by their texts. -/
theorem chars_inj {d d' : Date} (hmonth : d.month < 100) (hday : d.day < 100)
    (hmonth' : d'.month < 100) (hday' : d'.day < 100) (h : d.chars = d'.chars) : d = d' := by
  have hlength : ∀ {month day : Nat}, month < 100 → day < 100 →
      ('-' :: (padded 2 month ++ '-' :: padded 2 day)).length = 6 := by
    intro month day hm hd
    rw [List.length_cons, List.length_append, List.length_cons, length_padded (by decide) hm,
      length_padded (by decide) hd]
  obtain ⟨hyear, hrest⟩ := List.append_inj' h
    ((hlength hmonth hday).trans (hlength hmonth' hday').symm)
  obtain ⟨hm, hrest⟩ := padded_append_inj (by decide) hmonth hmonth' (List.cons.inj hrest).2
  obtain ⟨year, month, day⟩ := d
  obtain ⟨year', month', day'⟩ := d'
  obtain rfl : year = year' := yearChars_inj hyear
  obtain rfl : month = month' := hm
  obtain rfl : day = day' := padded_inj (List.cons.inj hrest).2
  rfl

theorem ne_of_mem_chars {d : Date} : ∀ c ∈ d.chars, decide (c ≠ 'T') = true := by
  have hpadded : ∀ {width n : Nat}, 'T' ∉ padded width n := fun hT => by
    have hdigit := isDigit_padded hT
    cases hdigit
  have hsign : 'T' ∉ signChars d.year := fun hT => by
    unfold signChars at hT
    split_ifs at hT <;> simp at hT
  intro c hc
  rw [decide_eq_true_iff]
  rintro rfl
  unfold chars at hc
  rw [yearChars_eq] at hc
  simp [hpadded, hsign] at hc

/-- A date ends where the first `T` stands. -/
theorem chars_append_inj {d d' : Date} {rest rest' : List Char}
    (h : d.chars ++ 'T' :: rest = d'.chars ++ 'T' :: rest') :
    d.chars = d'.chars ∧ rest = rest' := by
  have htake : ∀ (d : Date) (rest : List Char),
      (d.chars ++ 'T' :: rest).takeWhile (· ≠ 'T') = d.chars := by
    intro d rest
    rw [List.takeWhile_append_of_pos ne_of_mem_chars, List.takeWhile_cons_of_neg (by decide),
      List.append_nil]
  have hdate : d.chars = d'.chars := by rw [← htake d rest, h, htake]
  rw [hdate] at h
  exact ⟨hdate, (List.cons.inj (List.append_cancel_left h)).2⟩

/-- Different days have different texts. -/
theorem chars_ofDayNumber_inj {number number' : Int}
    (h : (ofDayNumber number).chars = (ofDayNumber number').chars) : number = number' := by
  obtain ⟨hmonth, hday⟩ := ofDayNumber_bounds number
  obtain ⟨hmonth', hday'⟩ := ofDayNumber_bounds number'
  exact ofDayNumber_inj (chars_inj (by omega) (by omega) (by omega) (by omega) h)

end Date

end Restaking
