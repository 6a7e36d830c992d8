import Restaking.Notifier.Gas

/-!
# What a gas meter remembers

A meter that was new shows the exact sum of its charges until it is full, and a full meter stays
full. So once the sum has gone over the limit, every check fails from there on, and no check fails
before (`overruns_remembered`).

1. Charges add up until the meter is full (`toNat_consumed_foldl_charge`).
2. A check is the same as a charge of nothing (`perform_eq`). So what is noted after each call of a
   row is the meter with all the charges so far, and the check of that meter (`getElem?_record`).
3. Under any limit but the greatest, a check tells whether the sum is above the limit
   (`check_foldl_charge`), and sums only grow (`total_take_le`).
-/

namespace Restaking

namespace GasMeter

/-! ## Charges -/

/-- The sum of charges, as a number without bounds. -/
def total : List UInt64 → Nat
  | [] => 0
  | amount :: rest => amount.toNat + total rest

/-- What a meter shows of an amount: the amount itself, as far as the meter goes. -/
def reading (amount : Nat) : UInt64 := UInt64.ofNat (min amount (UInt64.size - 1))

theorem toNat_reading (amount : Nat) : (reading amount).toNat = min amount (UInt64.size - 1) := by
  have hlt : min amount (UInt64.size - 1) < UInt64.size :=
    Nat.lt_of_le_of_lt (Nat.min_le_right _ _) (by decide)
  exact UInt64.toNat_ofNat_of_lt hlt

theorem toNat_consumed_charge (m : GasMeter) (amount : UInt64) :
    (m.charge amount).consumed.toNat = min (m.consumed.toNat + amount.toNat) (UInt64.size - 1) :=
  toNat_reading _

theorem limit_foldl_charge (amounts : List UInt64) (m : GasMeter) :
    (amounts.foldl charge m).limit = m.limit := by
  induction amounts generalizing m with
  | nil => rfl
  | cons amount rest ih => exact ih (m.charge amount)

/-- Charges add up until the meter is full. -/
theorem toNat_consumed_foldl_charge (amounts : List UInt64) (m : GasMeter) :
    (amounts.foldl charge m).consumed.toNat =
      min (m.consumed.toNat + total amounts) (UInt64.size - 1) := by
  induction amounts generalizing m with
  | nil =>
    have hlt : m.consumed.toNat < UInt64.size := m.consumed.toNat_lt
    show m.consumed.toNat = min (m.consumed.toNat + 0) (UInt64.size - 1)
    omega
  | cons amount rest ih =>
    rw [List.foldl_cons, ih, toNat_consumed_charge, total]
    omega

theorem consumed_foldl_charge (limit : UInt64) (amounts : List UInt64) :
    (amounts.foldl charge (new limit)).consumed = reading (total amounts) := by
  have hzero : (new limit).consumed.toNat = 0 := rfl
  rw [← UInt64.toNat_inj, toNat_consumed_foldl_charge, toNat_reading, hzero, Nat.zero_add]

/-- A check holds what a meter shows against its limit. -/
theorem check_foldl_charge_new (limit : UInt64) (amounts : List UInt64) :
    (amounts.foldl charge (new limit)).check =
      if limit < reading (total amounts) then .error (.outOfGas limit (reading (total amounts)))
      else .ok () := by
  have hlimit : (new limit).limit = limit := rfl
  unfold check
  rw [limit_foldl_charge, consumed_foldl_charge, hlimit]

/-- A meter that was new fails its check if and only if the sum of the charges is above the limit,
unless the limit is the greatest number that there is on a meter. -/
theorem check_foldl_charge {limit : UInt64} (h : limit.toNat < UInt64.size - 1)
    (amounts : List UInt64) :
    (amounts.foldl charge (new limit)).check =
      if total amounts ≤ limit.toNat then .ok ()
      else .error (.outOfGas limit (reading (total amounts))) := by
  have hlt : limit < reading (total amounts) ↔ limit.toNat < total amounts := by
    rw [UInt64.lt_iff_toNat_lt, toNat_reading]
    omega
  rw [check_foldl_charge_new]
  by_cases hle : total amounts ≤ limit.toNat
  · rw [if_neg fun hover => Nat.not_lt.2 hle (hlt.1 hover), if_pos hle]
  · rw [if_pos (hlt.2 (Nat.not_le.1 hle)), if_neg hle]

/-- Nothing is above the greatest limit. -/
theorem check_foldl_charge_greatest {limit : UInt64} (h : limit.toNat = UInt64.size - 1)
    (amounts : List UInt64) : (amounts.foldl charge (new limit)).check = .ok () := by
  rw [check_foldl_charge_new, if_neg]
  rw [UInt64.lt_iff_toNat_lt, toNat_reading, h]
  exact Nat.not_lt.2 (Nat.min_le_right _ _)

theorem total_append (amounts more : List UInt64) :
    total (amounts ++ more) = total amounts + total more := by
  induction amounts with
  | nil => exact (Nat.zero_add _).symm
  | cons amount rest ih =>
    rw [List.cons_append, total, total, ih]
    omega

/-- The longer charges go on, the greater is their sum. -/
theorem total_take_le (amounts : List UInt64) {i j : Nat} (h : i ≤ j) :
    total (amounts.take i) ≤ total (amounts.take j) := by
  obtain ⟨k, rfl⟩ := Nat.exists_eq_add_of_le h
  rw [List.take_add, total_append]
  exact Nat.le_add_right _ _

theorem toNat_remaining (m : GasMeter) :
    m.remaining.toNat = m.limit.toNat - m.consumed.toNat := by
  have hlt : m.limit.toNat - m.consumed.toNat < UInt64.size :=
    Nat.lt_of_le_of_lt (Nat.sub_le _ _) m.limit.toNat_lt
  exact UInt64.toNat_ofNat_of_lt hlt

/-! ## Rows of calls -/

/-- A call to a meter. -/
inductive Call where
  | consume (amount : UInt64)
  | check

/-- What a call charges. -/
def Call.amount : Call → UInt64
  | consume amount => amount
  | check => 0

/-- Makes a call. There is an answer to it, and the meter afterwards. -/
def perform (m : GasMeter) : Call → Except ExecutionError Unit × GasMeter
  | .consume amount => m.consume amount
  | .check => (m.check, m)

/-- Makes calls one after the other, whatever the answers, and notes down what there is after each
of them. -/
def record (m : GasMeter) : List Call → List (Except ExecutionError Unit × GasMeter)
  | [] => []
  | call :: rest => m.perform call :: record (m.perform call).2 rest

/-- What calls charge. -/
def amounts (calls : List Call) : List UInt64 := calls.map Call.amount

theorem charge_zero (m : GasMeter) : m.charge 0 = m := by
  have hreading : reading m.consumed.toNat = m.consumed := by
    have hlt : m.consumed.toNat < UInt64.size := m.consumed.toNat_lt
    rw [← UInt64.toNat_inj, toNat_reading]
    omega
  show { m with consumed := reading (m.consumed.toNat + 0) } = m
  rw [Nat.add_zero, hreading]

/-- Every call charges something, if only nothing, and is answered by a check. -/
theorem perform_eq (m : GasMeter) (call : Call) :
    m.perform call = ((m.charge call.amount).check, m.charge call.amount) := by
  cases call with
  | consume amount => rfl
  | check =>
    show (m.check, m) = ((m.charge 0).check, m.charge 0)
    rw [charge_zero]

theorem length_record (m : GasMeter) (calls : List Call) :
    (m.record calls).length = calls.length := by
  induction calls generalizing m with
  | nil => rfl
  | cons call rest ih => exact congrArg (· + 1) (ih _)

/-- What is noted after a call is the meter with the charges up to it, and the check of that
meter. -/
theorem getElem?_record (m : GasMeter) (calls : List Call) (i : Nat) :
    (m.record calls)[i]? = calls[i]?.map fun _ =>
      ((((amounts calls).take (i + 1)).foldl charge m).check,
        ((amounts calls).take (i + 1)).foldl charge m) := by
  induction calls generalizing m i with
  | nil => rfl
  | cons call rest ih =>
    rw [record, perform_eq]
    cases i with
    | zero => rfl
    | succ i => exact ih (m.charge call.amount) i

/-- Under any limit but the greatest, the meter fails its check after a call if and only if the sum
has gone over the limit at that call or at one before it. -/
theorem check_take_ne_ok_iff {limit : UInt64} (h : limit.toNat < UInt64.size - 1)
    (charges : List UInt64) (i : Nat) :
    ((charges.take (i + 1)).foldl charge (new limit)).check ≠ .ok () ↔
      ∃ j ≤ i, limit.toNat < total (charges.take (j + 1)) := by
  rw [check_foldl_charge h]
  constructor
  · intro hfails
    refine ⟨i, Nat.le_refl i, Nat.not_le.1 fun hle => hfails ?_⟩
    rw [if_pos hle]
  · rintro ⟨j, hj, hover⟩
    have hgrown := total_take_le charges (Nat.succ_le_succ hj)
    rw [if_neg (Nat.not_le.2 (Nat.lt_of_lt_of_le hover hgrown))]
    exact nofun

/-- Every call to a meter that was new is answered. After each of them, the meter shows the exact
sum of the charges so far, up to the greatest 64-bit number, and what remains is the limit without
that, or nothing. The answer is an error, with the limit and what is shown, if and only if the meter
shows more than the limit. Under any limit but the greatest, that is from the first call on at which
the exact sum is above the limit; the greatest limit is never exceeded. -/
theorem overruns_remembered (limit : UInt64) (calls : List Call) :
    ((new limit).record calls).length = calls.length ∧
      ∀ i answer m, ((new limit).record calls)[i]? = some (answer, m) →
        m.consumed.toNat = min (total (amounts (calls.take (i + 1)))) (UInt64.size - 1) ∧
          m.remaining.toNat = limit.toNat - m.consumed.toNat ∧
          answer = (if limit < m.consumed then .error (.outOfGas limit m.consumed) else .ok ()) ∧
          (limit.toNat < UInt64.size - 1 → (answer ≠ .ok () ↔
            ∃ j ≤ i, limit.toNat < total (amounts (calls.take (j + 1))))) ∧
          (limit.toNat = UInt64.size - 1 → answer = .ok ()) := by
  refine ⟨length_record _ _, fun i answer m hnoted => ?_⟩
  have hamounts : ∀ k, amounts (calls.take k) = (amounts calls).take k := fun k => List.map_take
  simp only [hamounts]
  rw [getElem?_record] at hnoted
  obtain ⟨_, _, hnoted⟩ := Option.map_eq_some_iff.1 hnoted
  obtain ⟨rfl, rfl⟩ := Prod.mk.inj hnoted
  refine ⟨?_, ?_, ?_, fun hbelow => check_take_ne_ok_iff hbelow (amounts calls) i,
    fun hgreatest => check_foldl_charge_greatest hgreatest _⟩
  · rw [consumed_foldl_charge, toNat_reading]
  · rw [toNat_remaining, limit_foldl_charge]
    rfl
  · rw [check_foldl_charge_new, consumed_foldl_charge]

end GasMeter

/-- Two charges that together are more than a meter can show, and a check after them. -/
def Sample.flood : List GasMeter.Call := [.consume 100, .consume 18446744073709551615, .check]

/-- Under a limit of 100, the first charge is within it. The check after the second one fails, and
the full meter has nothing left. Under the greatest limit the same check passes. -/
theorem GasMeter.overruns_remembered_flood :
    (∃ m, ((new 100).record Sample.flood)[0]? = some (.ok (), m) ∧ m.consumed.toNat = 100) ∧
      (∃ answer m, ((new 100).record Sample.flood)[2]? = some (answer, m) ∧
        m.consumed.toNat = UInt64.size - 1 ∧ m.remaining.toNat = 0 ∧ answer ≠ .ok ()) ∧
      ∃ answer m, ((new 18446744073709551615).record Sample.flood)[2]? = some (answer, m) ∧
        m.consumed.toNat = UInt64.size - 1 ∧ answer = .ok () := by
  obtain ⟨-, hnoted⟩ := overruns_remembered 100 Sample.flood
  obtain ⟨-, hnoted'⟩ := overruns_remembered 18446744073709551615 Sample.flood
  refine ⟨⟨_, rfl, (hnoted 0 _ _ rfl).1⟩, ⟨_, _, rfl, ?_⟩, _, _, rfl, ?_⟩
  · obtain ⟨hconsumed, hremaining, _, hfails, _⟩ := hnoted 2 _ _ rfl
    exact ⟨hconsumed, hremaining, (hfails (by decide)).2 ⟨1, by decide, by decide⟩⟩
  · obtain ⟨hconsumed, _, _, _, hgreatest⟩ := hnoted' 2 _ _ rfl
    exact ⟨hconsumed, hgreatest rfl⟩

end Restaking
