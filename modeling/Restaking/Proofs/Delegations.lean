import Restaking.Proofs.Keys
import Restaking.Proofs.Results
import Restaking.Staking.Delegation

/-!
# Well-formed delegations

The checks of a delegation are spread over the delegation, its part on undelegation and four lists
of signatures, and the first that fails decides the error. Whether all of them pass is a question
without an order: a delegation passes its checks if and only if it is well-formed
(`Delegation.check_eq_ok`). Each check of a part decides what it means for the part to be
well-formed.
-/

namespace Restaking

/-! ## Parts of a delegation -/

/-- A member's adaptor signatures on a delegation with that many providers: one for each. -/
structure AdaptorSignatures.WellFormed (providers : Nat) (s : AdaptorSignatures) : Prop where
  signer : Key.IsSpelt s.signer
  count : s.signatures.length = providers
  signatures : ∀ signature ∈ s.signatures, signature ≠ []

theorem AdaptorSignatures.checkFor_eq_ok {providers : Nat} {s : AdaptorSignatures} :
    s.checkFor providers = .ok () ↔ s.WellFormed providers := by
  unfold checkFor check
  rw [check_bind_eq_ok, check_bind_eq_ok, demand_eq_ok, demand_eq_ok, Key.check_eq_ok]
  exact ⟨fun ⟨⟨hsigner, hsignatures⟩, hcount⟩ => ⟨hsigner, hcount, hsignatures⟩,
    fun h => ⟨⟨h.signer, h.signatures⟩, h.count⟩⟩

/-- A member's signature. -/
structure MemberSignature.WellFormed (s : MemberSignature) : Prop where
  signer : Key.IsSpelt s.signer
  signature : s.signature ≠ []

theorem MemberSignature.check_eq_ok {s : MemberSignature} : s.check = .ok () ↔ s.WellFormed := by
  unfold check
  rw [check_bind_eq_ok, demand_eq_ok, Key.check_eq_ok]
  exact ⟨fun ⟨hsigner, hsignature⟩ => ⟨hsigner, hsignature⟩, fun h => ⟨h.signer, h.signature⟩⟩

/-- The part on undelegation of a delegation with that many providers. -/
structure Undelegation.WellFormed (providers : Nat) (u : Undelegation) : Prop where
  unbondingTx : u.unbondingTx ≠ []
  slashingTx : u.slashingTx ≠ []
  slashingSignature : u.slashingSignature ≠ []
  memberSignatures : ∀ s ∈ u.memberSignatures, s.WellFormed
  memberSlashingSignatures : ∀ s ∈ u.memberSlashingSignatures, s.WellFormed providers

theorem Undelegation.check_eq_ok {providers : Nat} {u : Undelegation} :
    u.check providers = .ok () ↔ u.WellFormed providers := by
  unfold check
  simp only [check_bind_eq_ok, demand_eq_ok, checkAll_eq_ok, MemberSignature.check_eq_ok,
    AdaptorSignatures.checkFor_eq_ok]
  constructor
  · rintro ⟨hunbondingTx, hslashingTx, hsignature, hmembers, hslashing⟩
    exact ⟨hunbondingTx, hslashingTx, hsignature, hmembers, hslashing⟩
  · intro h
    exact ⟨h.unbondingTx, h.slashingTx, h.slashingSignature, h.memberSignatures,
      h.memberSlashingSignatures⟩

/-! ## Delegations -/

namespace Delegation

/-- What is asked of a delegation by itself. Whether enough members have signed is another
question. -/
structure WellFormed (d : Delegation) : Prop where
  delegator : Key.IsSpelt d.delegator
  providers : d.providers ≠ []
  distinct : d.providers.Nodup
  keys : ∀ key ∈ d.providers, Key.IsSpelt key
  timeLock : d.startHeight < d.endHeight
  amount : 0 < d.totalSat
  stakingTx : d.stakingTx ≠ []
  slashingTx : d.slashingTx ≠ []
  slashingSignature : d.slashingSignature ≠ []
  unbondingTime : d.unbondingTime.toNat ≤ 65535
  memberSignatures : ∀ s ∈ d.memberSignatures, s.WellFormed d.providers.length
  undelegation : d.undelegation.WellFormed d.providers.length

theorem check_eq_ok {d : Delegation} : d.check = .ok () ↔ d.WellFormed := by
  unfold check checkEntry
  simp only [mapError_eq_ok, check_bind_eq_ok, demand_eq_ok, checkAll_eq_ok, Key.check_eq_ok,
    Key.checkDistinct_eq_ok, AdaptorSignatures.checkFor_eq_ok, Undelegation.check_eq_ok]
  rw [← UInt64.pos_iff_ne_zero]
  constructor
  · rintro ⟨hdelegator, hproviders, ⟨hkeys, hdistinct, _⟩, htimeLock, hamount, hstakingTx,
      hslashingTx, hsignature, hunbondingTime, hmembers, hundelegation⟩
    exact ⟨hdelegator, hproviders, hdistinct, hkeys, htimeLock, hamount, hstakingTx, hslashingTx,
      hsignature, hunbondingTime, hmembers, hundelegation⟩
  · intro h
    exact ⟨h.delegator, h.providers, ⟨h.keys, h.distinct, fun _ _ => List.not_mem_nil⟩, h.timeLock,
      h.amount, h.stakingTx, h.slashingTx, h.slashingSignature, h.unbondingTime,
      h.memberSignatures, h.undelegation⟩

/-- Whatever is wrong with a delegation makes it malformed. -/
theorem check_eq_malformed {d : Delegation} (h : ¬ d.WellFormed) :
    ∃ e, d.check = .error (.malformed e) := by
  rw [← check_eq_ok] at h
  unfold check at h ⊢
  cases hentry : checkEntry d with
  | ok => exact absurd (congrArg (Except.mapError StakingError.malformed) hentry) h
  | error e => exact ⟨e, rfl⟩

end Delegation

end Restaking
