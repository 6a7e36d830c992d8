import Restaking.Notifier.Params
import Restaking.Proofs.WireForms
import Restaking.Registry.Params
import Restaking.Staking.Stake

/-!
# The forms of stored values

What the registry and the notifier keep has a lawful form too: stakes at every stage, providers,
staking parameters and the parameters of the notifier (the last block is kept as the notice of it,
`lawfulForm_blockNotice`). These forms are not those of the wire: a provider writes its commission
as a decimal and `null` for what is absent, and a delegation always has its part on undelegation.
-/

namespace Restaking

/-! ## Providers -/

instance lawfulForm_decimal : LawfulForm Decimal 0 where
  ofJson?_toJson := Decimal.ofText?_text
  regular d := .str d.text
  toJson_ne_null _ := Json.noConfusion

instance lawfulForm_provider : LawfulForm Provider 2 :=
  .ofMembers (fun _ => rfl) (fun _ => rfl) (fun _ => by simp [Members.required?])
    (fun _ => by simp)

/-! ## Stakes -/

instance lawfulForm_undelegation : LawfulForm Undelegation 4 :=
  .ofMembers (fun _ => rfl) (fun _ => rfl)
    (fun _ => by simp [Members.required?, Undelegation.toMembers, Undelegation.ofMembers?])
    (fun _ => by simp [Undelegation.toMembers])

instance lawfulForm_delegation : LawfulForm Delegation 5 :=
  .ofMembers (fun _ => rfl) (fun _ => rfl)
    (fun _ => by simp [Members.required?, Body.toMembers, Body.ofMembers?])
    (fun _ => by simp [Body.toMembers])

instance lawfulForm_delegationId : LawfulForm DelegationId 1 :=
  .ofMembers (fun _ => rfl) (fun _ => rfl) (fun _ => by simp [Members.required?])
    (fun _ => by simp)

instance lawfulForm_unbondingDelegation : LawfulForm UnbondingDelegation 6 :=
  .ofMembers (fun _ => rfl) (fun _ => rfl) (fun _ => by simp [Members.required?])
    (fun _ => by simp)

instance lawfulForm_stake : LawfulForm Stake 7 :=
  .ofVariants
    (fun
      | .active d => ofJson?_variant (fun _ => rfl) d
      | .unbonding u => ofJson?_variant (fun _ => rfl) u
      | .slashed id => ofJson?_variant (fun _ => rfl) id
      | .unbonded id => ofJson?_variant (fun _ => rfl) id)
    (fun
      | .active d => ⟨_, _, rfl, (LawfulForm.regular d).mono (by decide)⟩
      | .unbonding u => ⟨_, _, rfl, LawfulForm.regular u⟩
      | .slashed id => ⟨_, _, rfl, (LawfulForm.regular id).mono (by decide)⟩
      | .unbonded id => ⟨_, _, rfl, (LawfulForm.regular id).mono (by decide)⟩)

/-! ## Parameters -/

instance lawfulForm_stakingParams : LawfulForm StakingParams 2 :=
  .ofMembers (fun _ => rfl) (fun _ => rfl) (fun _ => by simp [Members.required?])
    (fun _ => by simp)

instance lawfulForm_notifierParams : LawfulForm Notifier.Params 1 :=
  .ofMembers (fun _ => rfl) (fun _ => rfl) (fun _ => by simp [Members.required?])
    (fun _ => by simp)

end Restaking
