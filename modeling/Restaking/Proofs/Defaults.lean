import Restaking.Proofs.Addresses
import Restaking.Proofs.Heights

/-!
# The parameters that a notifier starts with

A notifier whose parameters were never set goes by its own, which name the unset account as the
contract. They say that no contract is set if and only if the human-readable part of the chain is
spelt without uppercase letters (`unset_by_default_iff`).

The address of the unset account is written in lowercase, whatever the spelling of the
human-readable part. It is read under that spelling, and a part with uppercase letters has no
addresses at all (`Address.isUpper_eq_false_of_decode`). A notifier for such a chain can be made all
the same, and it runs a contract that nobody has set.
-/

namespace Restaking

theorem Address.isUnset_eq_true_iff {text hrp : String} :
    Address.isUnset text hrp = true ↔ Address.decode text hrp = .ok Address.unset := by
  unfold Address.isUnset
  cases Address.decode text hrp <;> simp

namespace Notifier

theorem new_eq_ok {authority hrp : String} {n : Notifier} :
    Notifier.new authority hrp = .ok n ↔
      ∃ unset, Address.encode Address.unset hrp = .ok unset ∧ n = ⟨authority, hrp, unset⟩ := by
  unfold Notifier.new unsetAddress Address.ofUnset
  simp only [bind_eq_ok, mapError_eq_ok, pure_eq_ok, Except.ok.injEq, eq_comm (a := n)]

theorem checkAddress_eq_ok {field text hrp : String} :
    checkAddress field text hrp = .ok () ↔ ∃ bytes, Address.decode text hrp = .ok bytes := by
  unfold checkAddress
  cases Address.decode text hrp <;> simp

theorem Params.check_eq_ok {p : Params} {hrp : String} :
    p.check hrp = .ok () ↔ (∃ bytes, Address.decode p.contract hrp = .ok bytes) ∧
      (∃ bytes, Address.decode p.stakingContract hrp = .ok bytes) ∧ p.gasLimit ≠ 0 := by
  unfold Params.check
  rw [check_bind_eq_ok, check_bind_eq_ok, checkAddress_eq_ok, checkAddress_eq_ok, demand_eq_ok]

variable {σ : Type} {authority hrp : String} {n : Notifier}

/-- The address of the unset account can be read back under spellings without uppercase letters. -/
theorem decode_unset_iff (h : Notifier.new authority hrp = .ok n) :
    Address.decode n.unset n.hrp = .ok Address.unset ↔ ∀ c ∈ hrp.toList, c.isUpper = false := by
  obtain ⟨unset, hunset, rfl⟩ := new_eq_ok.1 h
  have hlength : Address.IsLength Address.unset.length := by decide
  exact ⟨Address.isUpper_eq_false_of_decode,
    fun hhrp => Address.decode_of_encode hhrp hlength hunset⟩

theorem hrp_of_new (h : Notifier.new authority hrp = .ok n) : n.hrp = hrp := by
  obtain ⟨unset, -, rfl⟩ := new_eq_ok.1 h
  rfl

theorem check_defaultParams_iff (h : Notifier.new authority hrp = .ok n) :
    n.defaultParams.check n.hrp = .ok () ↔ ∀ c ∈ hrp.toList, c.isUpper = false := by
  rw [Params.check_eq_ok]
  constructor
  · -- the first address that is checked already needs a spelling under which there are addresses
    rintro ⟨⟨bytes, hbytes⟩, _, _⟩
    rw [hrp_of_new h] at hbytes
    exact Address.isUpper_eq_false_of_decode hbytes
  · intro hlower
    have hunset := (decode_unset_iff h).2 hlower
    have hgas : defaultGasLimit ≠ 0 := by decide
    exact ⟨⟨_, hunset⟩, ⟨_, hunset⟩, hgas⟩

theorem isUnset_default_iff (h : Notifier.new authority hrp = .ok n) {s : Store}
    (hs : s.params = none) : n.IsUnset s ↔ ∀ c ∈ hrp.toList, c.isUpper = false := by
  unfold IsUnset params
  rw [hs, Option.getD_none, Address.isUnset_eq_true_iff]
  exact decode_unset_iff h

/-- A block goes by without a trace if and only if no contract is set. -/
theorem beginBlock_skipped_iff {σ : Type} (exec : Executor σ) {s : Store} {host : σ} {b : Header} :
    n.outcome exec (s, host) (.beginBlock b) = (.ok (), s, host) ∧
      n.calls exec (s, host) (.beginBlock b) = [] ↔ n.IsUnset s := by
  rcases beginBlock_cases exec n s host b with
    ⟨hunset, hcalls, houtcome⟩ | ⟨hset, _, _, houtcome⟩ | ⟨hset, _, hcalls, _⟩
  · exact ⟨fun _ => hunset, fun _ => ⟨houtcome, hcalls⟩⟩
  · refine ⟨fun hskipped => ?_, fun hunset => absurd hunset hset⟩
    rw [houtcome] at hskipped
    cases congrArg Prod.fst hskipped.1
  · refine ⟨fun hskipped => ?_, fun hunset => absurd hunset hset⟩
    rw [hskipped.2] at hcalls
    cases hcalls

/-- Every notifier that can be made for a spelling of the human-readable part without uppercase
letters starts with valid parameters that name the unset account. As long as none are stored it lets
every block go by, without a call and without a change. A notifier for any other spelling does none
of these. -/
theorem unset_by_default_iff (h : Notifier.new authority hrp = .ok n) :
    (n.defaultParams.check n.hrp = .ok () ↔ ∀ c ∈ hrp.toList, c.isUpper = false) ∧
      (Address.isUnset n.unset n.hrp = true ↔ ∀ c ∈ hrp.toList, c.isUpper = false) ∧
      ∀ {σ : Type} (exec : Executor σ) (s : Store) (host : σ) (b : Header), s.params = none →
        (n.outcome exec (s, host) (.beginBlock b) = (.ok (), s, host) ∧
            n.calls exec (s, host) (.beginBlock b) = [] ↔
          ∀ c ∈ hrp.toList, c.isUpper = false) :=
  ⟨check_defaultParams_iff h, Address.isUnset_eq_true_iff.trans (decode_unset_iff h),
    fun exec _ _ _ hs => (beginBlock_skipped_iff exec).trans (isUnset_default_iff h hs)⟩

theorem unset_by_default_bbn :
    Notifier.new "gov" "bbn" = .ok Sample.notifier ∧
      Sample.notifier.defaultParams.check "bbn" = .ok () ∧
      Address.isUnset Sample.notifier.unset "bbn" = true ∧
      Sample.notifier.outcome Sample.counting (.empty, 0) (.beginBlock (Sample.header 4)) =
        (.ok (), .empty, 0) ∧
      Sample.notifier.calls Sample.counting (.empty, 0) (.beginBlock (Sample.header 4)) = [] := by
  have hnew : Notifier.new "gov" "bbn" = .ok Sample.notifier := by decide +kernel
  have hlower : ∀ c ∈ "bbn".toList, c.isUpper = false :=
    Address.lowercase_eq_self_iff.1 (by decide +kernel)
  obtain ⟨hcheck, hunset, hblock⟩ := unset_by_default_iff hnew
  obtain ⟨houtcome, hcalls⟩ :=
    (hblock Sample.counting .empty 0 (Sample.header 4) rfl).2 hlower
  exact ⟨hnew, hcheck.2 hlower, hunset.2 hlower, houtcome, hcalls⟩

/-- A notifier for an uppercase spelling refuses its own parameters, and runs the unset account. -/
theorem called_by_default_uppercase :
    ∃ n, Notifier.new "gov" "BBN" = .ok n ∧
      n.defaultParams.check n.hrp = .error (.badAddress "babylon_contract_address" .wrongHrp) ∧
      Address.isUnset n.unset n.hrp = false ∧
      n.outcome Sample.counting (.empty, 0) (.beginBlock (Sample.header 4)) =
        (.ok (), ⟨none, some 4⟩, 1) ∧
      (n.calls Sample.counting (.empty, 0) (.beginBlock (Sample.header 4))).map Prod.fst =
        [n.unset] :=
  ⟨{ Sample.notifier with hrp := "BBN" }, by decide +kernel⟩

end Notifier

end Restaking
