import Restaking.Proofs.Calendar
import Restaking.Proofs.HexTexts
import Restaking.Proofs.WireForms

/-!
# What notices of blocks lose

A contract is told about a block in a message, in which the time of the block is spelt out as a
date, a clock time and a fraction. The message is read as the notice that it was written for, and
blocks with different headers have different messages, as long as leap seconds come at the end of a
minute (`Header.message_lossless`). A leap second that extends any other second is shown as the next
second, and is taken for it (`Header.message_off_minute`). Nothing else is lost.

1. The fraction gives back the nanoseconds, since it leaves out zeros only
   (`Timestamp.nanos_of_fractionChars`).
2. The clock shows second 60 in a leap second at the end of a minute and at no other time, so such a
   leap second is not taken for the second before it, nor for the one after it
   (`Timestamp.clockChars_inj`).
3. Points in time with leap seconds of that kind are told apart by their texts
   (`Timestamp.text_inj`): the first `T` is the one after the date.
4. Any other point in time has the text of a point in time without a leap second
   (`Timestamp.text_settled`), so a text determines the point in time that it is settled to
   (`Timestamp.text_eq_iff`).
-/

namespace Restaking

open Numeral

namespace Timestamp

/-! ## Fractions -/

theorem value_of_fraction {width n : Nat} (hw : 0 < width) (hn : n < Nat.pow 10 width) :
    Nat.ofDigitChars 10 ('.' :: padded width n).tail 0 *
      Nat.pow 10 (10 - ('.' :: padded width n).length) = n * Nat.pow 10 (9 - width) := by
  have hplaces : 10 - (width + 1) = 9 - width := by omega
  rw [List.tail_cons, ofDigitChars_padded, List.length_cons, length_padded hw hn, hplaces]

/-- The nanoseconds are the digits of a fraction, followed by as many zeros as are left out. -/
theorem nanos_of_fractionChars {nanos : Nat} (h : nanos < 1000000000) :
    Nat.ofDigitChars 10 (fractionChars nanos).tail 0 *
      Nat.pow 10 (10 - (fractionChars nanos).length) = nanos := by
  unfold fractionChars
  by_cases hzero : nanos = 0
  · rw [if_pos hzero, hzero]
    rfl
  by_cases hmillis : nanos % 1000000 = 0
  · rw [if_neg hzero, if_pos hmillis, value_of_fraction (by decide) (Nat.div_lt_of_lt_mul h)]
    exact Nat.div_mul_cancel (Nat.dvd_of_mod_eq_zero hmillis)
  by_cases hmicros : nanos % 1000 = 0
  · rw [if_neg hzero, if_neg hmillis, if_pos hmicros,
      value_of_fraction (by decide) (Nat.div_lt_of_lt_mul h)]
    exact Nat.div_mul_cancel (Nat.dvd_of_mod_eq_zero hmicros)
  · rw [if_neg hzero, if_neg hmillis, if_neg hmicros, value_of_fraction (by decide) h]
    exact Nat.mul_one nanos

theorem fractionChars_inj {nanos nanos' : Nat} (h : nanos < 1000000000)
    (h' : nanos' < 1000000000) (heq : fractionChars nanos = fractionChars nanos') :
    nanos = nanos' := by
  rw [← nanos_of_fractionChars h, heq, nanos_of_fractionChars h']

/-! ## Clock times -/

/-- A second of a day and its nanoseconds: more of them than a second has only in the last second of
a minute. -/
structure IsClock (second nanos : Nat) : Prop where
  second_lt : second < 86400
  nanos_lt : nanos < 2000000000
  last_of_leap : 1000000000 ≤ nanos → second % 60 = 59

/-- The second that a clock shows is below 60, or it is 60 and there is a leap second. -/
theorem shown_cases {second nanos : Nat} (h : IsClock second nanos) :
    (nanos / 1000000000 = 0 ∧ second % 60 + nanos / 1000000000 < 60) ∨
      (nanos / 1000000000 = 1 ∧ second % 60 + nanos / 1000000000 = 60) := by
  obtain ⟨_, hnanos, hleap⟩ := h
  by_cases hle : 1000000000 ≤ nanos
  · have hlast := hleap hle
    omega
  · omega

theorem clockChars_inj {second nanos second' nanos' : Nat} (hc : IsClock second nanos)
    (hc' : IsClock second' nanos') (h : clockChars second nanos = clockChars second' nanos') :
    second = second' ∧ nanos = nanos' := by
  have hday := hc.second_lt
  have hday' := hc'.second_lt
  have hshown := shown_cases hc
  have hshown' := shown_cases hc'
  have hbound : ∀ {n : Nat}, n ≤ 60 → n < Nat.pow 10 2 := fun hn => Nat.lt_of_le_of_lt hn (by decide)
  unfold clockChars at h
  dsimp only at h
  obtain ⟨hhour, h⟩ := padded_append_inj (by decide) (hbound (by omega)) (hbound (by omega)) h
  obtain ⟨hminute, h⟩ :=
    padded_append_inj (by decide) (hbound (by omega)) (hbound (by omega)) (List.cons.inj h).2
  obtain ⟨hsecond, hfraction⟩ :=
    padded_append_inj (by decide) (hbound (by omega)) (hbound (by omega)) (List.cons.inj h).2
  have hrest := fractionChars_inj (Nat.mod_lt _ (by decide)) (Nat.mod_lt _ (by decide)) hfraction
  constructor <;> omega

/-- More nanoseconds than a second has show as the next second, if the minute goes on. -/
theorem clockChars_succ {second nanos : Nat} (hlast : second % 60 ≠ 59)
    (hnanos : 1000000000 ≤ nanos) :
    clockChars (second + 1) (nanos - 1000000000) = clockChars second nanos := by
  have hhour : (second + 1) / 3600 = second / 3600 := by omega
  have hminute : (second + 1) / 60 % 60 = second / 60 % 60 := by omega
  have hsecond : (second + 1) % 60 + (nanos - 1000000000) / 1000000000 =
      second % 60 + nanos / 1000000000 := by omega
  have hfraction : (nanos - 1000000000) % 1000000000 = nanos % 1000000000 := by omega
  unfold clockChars
  rw [hhour, hminute, hsecond, hfraction]

/-! ## Points in time -/

variable {t u : Timestamp}

/-- A point in time without a leap second off the minute is a second of some day. -/
theorem isClock (h : t.LeapsOnMinute) : IsClock (t.seconds % 86400).toNat t.nanos where
  second_lt := by omega
  nanos_lt := t.nanos_lt
  last_of_leap hleap := by
    have hlast := h hleap
    omega

/-- Points in time whose leap seconds come at the end of a minute are told apart by their texts. -/
theorem text_inj (ht : t.LeapsOnMinute) (hu : u.LeapsOnMinute) (h : t.text = u.text) : t = u := by
  have hchars := congrArg String.toList h
  unfold text at hchars
  rw [String.toList_ofList, String.toList_ofList] at hchars
  obtain ⟨hdate, hclock⟩ := Date.chars_append_inj hchars
  have hday := Date.chars_ofDayNumber_inj hdate
  obtain ⟨hsecond, hnanos⟩ :=
    clockChars_inj (isClock ht) (isClock hu) (List.append_cancel_right hclock)
  obtain ⟨seconds, nanos, _⟩ := t
  obtain ⟨seconds', nanos', _⟩ := u
  obtain rfl : seconds = seconds' := by
    dsimp only at hday hsecond
    omega
  obtain rfl : nanos = nanos' := hnanos
  rfl

/-! ## Leap seconds off the minute -/

/-- The point in time that is read off a text: a leap second that does not come at the end of a
minute is taken for the next second. -/
def settled (t : Timestamp) : Timestamp :=
  if t.LeapsOnMinute then t
  else ⟨t.seconds + 1, t.nanos - 1000000000, Nat.lt_of_le_of_lt (Nat.sub_le _ _) t.nanos_lt⟩

theorem settled_eq_self (h : t.LeapsOnMinute) : t.settled = t := if_pos h

theorem leapsOnMinute_settled (t : Timestamp) : t.settled.LeapsOnMinute := by
  by_cases h : t.LeapsOnMinute
  · rwa [settled_eq_self h]
  · have hnanos := t.nanos_lt
    unfold settled
    rw [if_neg h]
    intro hleap
    dsimp only at hleap
    omega

/-- The text does not tell a point in time from what it is settled to. -/
theorem text_settled (t : Timestamp) : t.settled.text = t.text := by
  by_cases h : t.LeapsOnMinute
  · rw [settled_eq_self h]
  obtain ⟨hnanos, hlast⟩ : 1000000000 ≤ t.nanos ∧ t.seconds % 60 ≠ 59 := Classical.not_imp.1 h
  have hday : (t.seconds + 1) / 86400 = t.seconds / 86400 := by omega
  have hsecond : ((t.seconds + 1) % 86400).toNat = (t.seconds % 86400).toNat + 1 := by omega
  have hclock : (t.seconds % 86400).toNat % 60 ≠ 59 := by omega
  unfold settled text
  rw [if_neg h]
  dsimp only
  rw [hday, hsecond, clockChars_succ hclock hnanos]

/-- A text determines the point in time that it is read as. -/
theorem text_eq_iff : t.text = u.text ↔ t.settled = u.settled := by
  rw [← text_settled t, ← text_settled u]
  exact ⟨text_inj (leapsOnMinute_settled t) (leapsOnMinute_settled u), fun h => h ▸ rfl⟩

end Timestamp

/-! ## Headers -/

namespace Header

/-- The header whose time is the one that is read off its text. -/
def settled (h : Header) : Header := { h with time := h.time.settled }

theorem settled_eq_self {h : Header} (htime : h.time.LeapsOnMinute) : h.settled = h := by
  unfold settled
  rw [Timestamp.settled_eq_self htime]

/-- A notice determines the header, but for what the time is settled to. -/
theorem notice_eq_iff {h h' : Header} : h.notice = h'.notice ↔ h.settled = h'.settled := by
  have hhex : ∀ {bytes bytes' : Bytes}, Hex.encode bytes = Hex.encode bytes' ↔ bytes = bytes' :=
    ⟨Hex.encode_inj, fun h => h ▸ rfl⟩
  simp only [notice, settled, BlockNotice.mk.injEq, Header.mk.injEq, hhex, Timestamp.text_eq_iff]

theorem message_eq_iff {h h' : Header} :
    Utf8.encode (jsonText h.message) = Utf8.encode (jsonText h'.message) ↔
      h.settled = h'.settled := by
  rw [← notice_eq_iff]
  refine ⟨fun heq => ?_, fun heq => by rw [message, heq, message]⟩
  have hmessage : h.message = h'.message := by
    rw [← Option.some_inj, ← ofMessage?_message h, heq, ofMessage?_message h']
  exact HostMessage.beginBlock.inj hmessage

/-- The message about a block is read as what it was written for. Headers have one message if and
only if their times are settled to one and nothing else differs; so they are one header, if their
leap seconds come at the end of a minute. -/
theorem message_lossless (h : Header) :
    ofMessage? HostMessage (Utf8.encode (jsonText h.message)) = some h.message ∧
      ∀ h' : Header,
        (Utf8.encode (jsonText h.message) = Utf8.encode (jsonText h'.message) ↔
          h.settled = h'.settled) ∧
        (h.time.LeapsOnMinute → h'.time.LeapsOnMinute →
          (Utf8.encode (jsonText h.message) = Utf8.encode (jsonText h'.message) ↔ h = h')) := by
  refine ⟨ofMessage?_message h, fun h' => ⟨message_eq_iff, fun htime htime' => ?_⟩⟩
  rw [message_eq_iff, settled_eq_self htime, settled_eq_self htime']

end Header

/-! ## Leap seconds of both kinds -/

namespace Sample

/-- The header of a block at a point in time. -/
def headerAt (time : Timestamp) : Header := ⟨7, [0xab], time, "osmosis-1", [0xcd]⟩

/-- Halfway through the leap second at the end of the year 2016. -/
def yearEnd : Timestamp := ⟨1483228799, 1500000000, by decide⟩

/-- One second later. -/
def newYear : Timestamp := ⟨1483228800, 500000000, by decide⟩

/-- Halfway through a leap second that extends the first second after noon. -/
def longNoon : Timestamp := ⟨43200, 1500000000, by decide⟩

/-- Halfway through the second that comes next. -/
def afterNoon : Timestamp := ⟨43201, 500000000, by decide⟩

end Sample

namespace Header

open Sample

/-- A leap second at the end of a minute is told from the second after it. -/
theorem message_lossless_yearEnd :
    yearEnd.LeapsOnMinute ∧ newYear.LeapsOnMinute ∧
      Utf8.encode (jsonText (headerAt yearEnd).message) ≠
        Utf8.encode (jsonText (headerAt newYear).message) := by
  have hleap : yearEnd.LeapsOnMinute := by decide
  have hnext : newYear.LeapsOnMinute := by decide
  refine ⟨hleap, hnext, fun heq => ?_⟩
  have hheader := (((message_lossless (headerAt yearEnd)).2 (headerAt newYear)).2 hleap hnext).1 heq
  exact absurd hheader (by decide)

/-- A leap second off the minute is not told from the second after it. -/
theorem message_off_minute :
    (Timestamp.ofSeconds 43200).withNanos? 1500000000 = some longNoon ∧
      longNoon.text = "1970-01-01T12:00:01.500Z" ∧
      Utf8.encode (jsonText (headerAt longNoon).message) =
        Utf8.encode (jsonText (headerAt afterNoon).message) ∧
      headerAt longNoon ≠ headerAt afterNoon := by
  refine ⟨rfl, by decide +kernel, ?_, by decide⟩
  rw [message_eq_iff]
  decide

end Header

end Restaking
