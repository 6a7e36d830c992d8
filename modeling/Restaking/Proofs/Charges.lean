import Restaking.Proofs.Heights
import Restaking.Proofs.Meters
import Mathlib.Tactic.SplitIfs

/-!
# The gas that a notice may cost

A contract is told about a block if and only if it succeeds and its charges add up to no more than
the limit, as a sum without bounds (`beginBlock_gas`). It does not matter when the charges are made,
whether the contract heeds the limit, or how far the sum lies above the numbers of the meter.

1. Charges add up on the meter until it is full, and a full meter stays full
   (`GasMeter.toNat_consumed_foldl_charge`). No limit of a notice is as great as that.
2. A contract that only puts charges on its meter leaves the meter with all of them
   (`Execution.meter_run`), whatever it makes of being told that it has run out.
3. The meter is read again at the end, so the sum decides (`executed_metered`).
-/

namespace Restaking

variable {σ : Type}

/-! ## Executions -/

/-- What a contract does with the meter that it runs on. It puts charges on the meter, and is told
of each whether the limit still holds, which it may heed or not. In the end it comes to a result,
and leaves the host in some state. -/
inductive Execution (σ : Type) where
  | done (result : Except ExecutionError Unit) (host : σ)
  | charge (amount : UInt64) (next : Except ExecutionError Unit → Execution σ)

namespace Execution

/-- What comes of an execution: its result, the meter afterwards, and the host. -/
def run : Execution σ → GasMeter → Except ExecutionError Unit × GasMeter × σ
  | done result host, meter => (result, meter, host)
  | charge amount next, meter =>
    (next (meter.consume amount).1).run (meter.consume amount).2

/-- The charges that an execution makes, in order. -/
def charges : Execution σ → GasMeter → List UInt64
  | done _ _, _ => []
  | charge amount next, meter =>
    amount :: (next (meter.consume amount).1).charges (meter.consume amount).2

/-- All charges stay on the meter, those included that go over the limit. -/
theorem meter_run (x : Execution σ) (meter : GasMeter) :
    (x.run meter).2.1 = (x.charges meter).foldl GasMeter.charge meter := by
  induction x generalizing meter with
  | done result host => rfl
  | charge amount next ih => exact ih _ _

end Execution

/-- The executor that runs contracts as the given executions, which may depend on the host. -/
def Executor.metered (contracts : String → String → σ → Execution σ) : Executor σ :=
  fun contract message (meter, host) => (contracts contract message host).run meter

namespace Notifier

variable (contracts : String → String → σ → Execution σ)

/-! ## The limit of a notice -/

/-- The limit of a notice is far below the greatest number of a meter. -/
theorem toNat_gasLimit_lt (gasLimit : UInt32) : gasLimit.toUInt64.toNat < UInt64.size - 1 := by
  have hlt : gasLimit.toNat < UInt32.size := gasLimit.toNat_lt
  rw [UInt32.toNat_toUInt64]
  exact Nat.lt_of_lt_of_le hlt (by decide)

/-- Under a limit, an execution that ends in an error of its own fails with that error, and for any
other the sum of its charges decides. -/
theorem executed_metered (contract message : String) (gasLimit : UInt32) (host : σ) :
    (executed (.metered contracts) contract message gasLimit host).1 =
      match ((contracts contract message host).run (.new gasLimit.toUInt64)).1 with
      | .error e => .error e
      | .ok () =>
        let spent := GasMeter.total
          ((contracts contract message host).charges (.new gasLimit.toUInt64))
        if spent ≤ gasLimit.toNat then .ok (GasMeter.reading spent)
        else .error (.outOfGas gasLimit.toUInt64 (GasMeter.reading spent)) := by
  have hmeter := (contracts contract message host).meter_run (.new gasLimit.toUInt64)
  have hrun : (Executor.metered contracts contract message).run (.new gasLimit.toUInt64, host) =
      (contracts contract message host).run (.new gasLimit.toUInt64) := rfl
  unfold executed
  rw [hrun]
  rcases hx : (contracts contract message host).run (.new gasLimit.toUInt64) with
    ⟨_ | _, meter, host'⟩
  · rfl
  · rw [hx] at hmeter
    obtain rfl := hmeter
    dsimp only
    rw [GasMeter.check_foldl_charge (toNat_gasLimit_lt gasLimit), GasMeter.consumed_foldl_charge,
      UInt32.toNat_toUInt64]
    split_ifs
    · rfl
    · rfl

section Blocks

variable {n : Notifier} {s : Store} {host : σ} {h : Header} (hset : ¬ n.IsUnset s)
  (hnew : ¬ s.Told h.height)

include hset hnew

/-- The height is recorded if the contract has been run under the limit. -/
theorem beginBlock_of_executed_ok {exec : Executor σ} {gas : UInt64}
    (hran : (executed exec (n.params s).contract (jsonText h.message) (n.params s).gasLimit
      host).1 = .ok gas) :
    (n.outcome exec (s, host) (.beginBlock h)).1 = .ok () ∧
      (n.outcome exec (s, host) (.beginBlock h)).2.1 = { s with lastHeight := some h.height } := by
  rw [outcome_beginBlock_of_new exec hset hnew, ← Prod.eta (executed _ _ _ _ _), hran]
  exact ⟨rfl, rfl⟩

/-- Nothing is stored if the contract fails or goes over the limit. -/
theorem beginBlock_of_executed_error {exec : Executor σ} {e : ExecutionError}
    (hran : (executed exec (n.params s).contract (jsonText h.message) (n.params s).gasLimit
      host).1 = .error e) :
    (n.outcome exec (s, host) (.beginBlock h)).1 = .error (.execution e) ∧
      (n.outcome exec (s, host) (.beginBlock h)).2.1 = s := by
  rw [outcome_beginBlock_of_new exec hset hnew, ← Prod.eta (executed _ _ _ _ _), hran]
  exact ⟨rfl, rfl⟩

variable (host) in
/-- When a block begins of which the contract has not been told, the contract runs under the limit
that is in force. The notice succeeds, and the height of the block is recorded, if and only if the
contract succeeds and the sum of its charges is within the limit. If only the sum is not, the notice
has run out of gas; if the contract fails, that is the error. After an error nothing is stored, so
that the height stays open. -/
theorem beginBlock_gas (contracts : String → String → σ → Execution σ) :
    let gasLimit := (n.params s).gasLimit
    let x := contracts (n.params s).contract (jsonText h.message) host
    let spent := GasMeter.total (x.charges (.new gasLimit.toUInt64))
    let result := (x.run (.new gasLimit.toUInt64)).1
    let out := n.outcome (.metered contracts) (s, host) (.beginBlock h)
    (out.1 = .ok () ∧ out.2.1 = { s with lastHeight := some h.height } ↔
        result = .ok () ∧ spent ≤ gasLimit.toNat) ∧
      (result = .ok () → gasLimit.toNat < spent →
        ∃ limit consumed : UInt64, limit.toNat = gasLimit.toNat ∧
          consumed.toNat = min spent (UInt64.size - 1) ∧
          out.1 = .error (.execution (.outOfGas limit consumed))) ∧
      (∀ e, result = .error e → out.1 = .error (.execution e)) ∧
      ∀ e, out.1 = .error e → out.2.1 = s ∧ ¬ out.2.1.Told h.height := by
  intro gasLimit x spent result out
  have hran : (executed (.metered contracts) (n.params s).contract (jsonText h.message) gasLimit
      host).1 =
        match result with
        | .error e => .error e
        | .ok () =>
          if spent ≤ gasLimit.toNat then .ok (GasMeter.reading spent)
          else .error (.outOfGas gasLimit.toUInt64 (GasMeter.reading spent)) :=
    executed_metered contracts (n.params s).contract (jsonText h.message) gasLimit host
  cases hresult : result with
  | error e =>
    -- a contract that fails does not come to the second reading of the meter
    rw [hresult] at hran
    obtain ⟨hfailed, hkept⟩ : out.1 = .error (.execution e) ∧ out.2.1 = s :=
      beginBlock_of_executed_error hset hnew hran
    refine ⟨iff_of_false ?_ nofun, nofun, ?_, fun _ _ => ⟨hkept, hkept ▸ hnew⟩⟩
    · rw [hfailed]
      exact nofun
    · rintro _ ⟨⟩
      exact hfailed
  | ok _ =>
    rw [hresult] at hran
    dsimp only at hran
    by_cases hle : spent ≤ gasLimit.toNat
    · rw [if_pos hle] at hran
      have hrecorded : out.1 = .ok () ∧ out.2.1 = { s with lastHeight := some h.height } :=
        beginBlock_of_executed_ok hset hnew hran
      refine ⟨iff_of_true hrecorded ⟨rfl, hle⟩, fun _ hover => absurd hle (Nat.not_le.2 hover),
        nofun, ?_⟩
      rw [hrecorded.1]
      exact nofun
    · rw [if_neg hle] at hran
      obtain ⟨hfailed, hkept⟩ : out.1 = .error (.execution (.outOfGas gasLimit.toUInt64
          (GasMeter.reading spent))) ∧ out.2.1 = s :=
        beginBlock_of_executed_error hset hnew hran
      refine ⟨iff_of_false ?_ fun hwithin => hle hwithin.2, fun _ _ => ?_, nofun,
        fun _ _ => ⟨hkept, hkept ▸ hnew⟩⟩
      · rw [hfailed]
        exact nofun
      · exact ⟨_, _, UInt32.toNat_toUInt64 gasLimit, GasMeter.toNat_reading spent, hfailed⟩

end Blocks

end Notifier

/-! ## A contract that does not heed the limit -/

namespace Sample

/-- A contract that charges more than a meter can show, goes on when it is told so, and charges once
more before it comes to a result. -/
def heedless (result : Except ExecutionError Unit) : String → String → Nat → Execution Nat :=
  fun _ _ count =>
    .charge 18446744073709551615 fun _ => .charge 60 fun _ => .done result (count + 1)

/-- A contract that charges in two portions, and heeds the limit. -/
def heedful : String → String → Nat → Execution Nat := fun _ _ count =>
  .charge 40 fun
    | .error e => .done (.error e) count
    | .ok () => .charge 60 fun r => .done r (count + 1)

end Sample

namespace Notifier

/-- Under a limit of 100, two portions of 40 and 60 are recorded. A contract that goes over the
limit and does not heed it has run out of gas, and one that has a reason of its own to fail gives
that reason. The height stays open in both cases. -/
theorem beginBlock_gas_limit :
    (Sample.notifier.outcome (.metered Sample.heedful) (Sample.told, 0)
        (.beginBlock (Sample.header 8))).2.1.lastHeight = some 8 ∧
      (∃ limit consumed : UInt64, limit.toNat = 100 ∧ consumed.toNat = UInt64.size - 1 ∧
        (Sample.notifier.outcome (.metered (Sample.heedless (.ok ()))) (Sample.told, 0)
          (.beginBlock (Sample.header 8))).1 = .error (.execution (.outOfGas limit consumed))) ∧
      (Sample.notifier.outcome (.metered (Sample.heedless (.error (.contract "boom"))))
        (Sample.told, 0) (.beginBlock (Sample.header 8))).1 =
          .error (.execution (.contract "boom")) ∧
      (Sample.notifier.outcome (.metered (Sample.heedless (.error (.contract "boom"))))
        (Sample.told, 0) (.beginBlock (Sample.header 8))).2.1 = Sample.told := by
  have hset : ¬ Sample.notifier.IsUnset Sample.told := by
    unfold IsUnset
    decide +kernel
  have hnew : ¬ Sample.told.Told (Sample.header 8).height := by
    rintro ⟨last, ⟨⟩, hle⟩
    exact absurd hle (by decide)
  obtain ⟨hrecorded, -⟩ := beginBlock_gas 0 hset hnew Sample.heedful
  obtain ⟨-, hover, -⟩ := beginBlock_gas 0 hset hnew (Sample.heedless (.ok ()))
  obtain ⟨-, -, hfails, hopen⟩ :=
    beginBlock_gas 0 hset hnew (Sample.heedless (.error (.contract "boom")))
  have hfailed := hfails _ rfl
  exact ⟨congrArg Store.lastHeight (hrecorded.2 ⟨rfl, by decide⟩).2, hover rfl (by decide), hfailed,
    (hopen _ hfailed).1⟩

end Notifier

end Restaking
