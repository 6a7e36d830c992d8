import Restaking.Proofs.Admission
import Restaking.Proofs.Versions

/-!
# A quorum of the committee

A committee that is stored has passed its checks: its keys differ, and there are as many of them as
its quorum at least. So the quorum can be met, and it is met by members alone (`admits_iff_members`).

Admission looks at three things: whether each signature is by a member, how many different keys have
signed, and the quorum. If all signatures are by members, the keys that have signed are the members
that have (`length_signingMembers`), and they are no more than the committee has
(`card_signers_le`). Both rest on the keys of the committee being different.
-/

namespace Restaking

/-! ## Members that sign -/

theorem Delegation.mem_signers {d : Delegation} {key : String} :
    key ∈ Delegation.signers d ↔ ∃ sig ∈ d.memberSignatures, sig.signer = key := by
  unfold signers
  rw [List.mem_toFinset, List.mem_map]

namespace StakingParams

variable {p : StakingParams} {d : Delegation}

/-- Only members of the committee have signed the delegation. -/
def SignedByMembers (p : StakingParams) (d : Delegation) : Prop :=
  ∀ sig ∈ d.memberSignatures, sig.signer ∈ p.committee

/-- The members of the committee that have signed a delegation. -/
def signingMembers (p : StakingParams) (d : Delegation) : List String :=
  p.committee.filter (· ∈ Delegation.signers d)

theorem signers_subset (h : p.SignedByMembers d) : Delegation.signers d ⊆ p.committee.toFinset := by
  intro key hkey
  obtain ⟨sig, hsig, rfl⟩ := Delegation.mem_signers.1 hkey
  exact List.mem_toFinset.2 (h sig hsig)

/-- Of keys that are members' there are no more than members. -/
theorem card_signers_le (h : p.SignedByMembers d) :
    (Delegation.signers d).card ≤ p.committee.length :=
  (Finset.card_le_card (signers_subset h)).trans (List.toFinset_card_le _)

/-- If only members have signed, it is the same to count the keys and to count the members. -/
theorem length_signingMembers (h : p.SignedByMembers d) (hp : p.committee.Nodup) :
    (p.signingMembers d).length = (Delegation.signers d).card := by
  have hsame : (p.signingMembers d).toFinset = Delegation.signers d := by
    ext key
    rw [List.mem_toFinset, signingMembers, List.mem_filter, decide_eq_true_iff]
    exact ⟨fun hkey => hkey.2, fun hkey => ⟨List.mem_toFinset.1 (signers_subset h hkey), hkey⟩⟩
  have hdistinct : (p.signingMembers d).Nodup := hp.filter _
  rw [← hsame, List.toFinset_card_of_nodup hdistinct]

theorem signingMembers_of_all (h : ∀ key ∈ p.committee, key ∈ Delegation.signers d) :
    p.signingMembers d = p.committee :=
  List.filter_eq_self.2 fun key hkey => decide_eq_true (h key hkey)

end StakingParams

namespace Draft

variable {base : Registry} {draft : Draft} {p : StakingParams} {d : Delegation}

/-! ## Admission -/

/-- The delegation is admitted as a new one, and becomes active. -/
def Admits (base : Registry) (draft : Draft) (d : Delegation) : Prop :=
  Prod.fst <$> draft.accept base d = .ok (.new (.active d))

/-- A delegation that is neither stored nor drafted is examined. -/
theorem accept_of_unknown (hstored : base.stakes.get? (Delegation.hash d) = none)
    (hdrafted : draft.stakes.get? (Delegation.hash d) = none) :
    Prod.fst <$> draft.accept base d = Admission.new <$> base.examine d := by
  unfold accept stake?
  rw [hdrafted]
  dsimp only
  rw [hstored]
  dsimp only
  rw [acceptNew_eq_map]
  cases base.examine d <;> rfl

theorem admits_iff_signers (hparams : base.params.get? d.paramsVersion = some p)
    (hd : Delegation.check d = .ok ()) (hstored : base.stakes.get? (Delegation.hash d) = none)
    (hdrafted : draft.stakes.get? (Delegation.hash d) = none) :
    draft.Admits base d ↔
      p.SignedByMembers d ∧ p.quorum.toNat ≤ (Delegation.signers d).card := by
  unfold Admits
  rw [accept_of_unknown hstored hdrafted, map_eq_ok]
  constructor
  · rintro ⟨s, hs, _⟩
    obtain ⟨_, p', hp', hmembers, _, hquorum⟩ := Registry.examine_eq_ok.1 hs
    obtain rfl := Option.some.inj (hparams.symm.trans hp')
    rw [Stake.signerCount_eq_card] at hquorum
    exact ⟨hmembers, hquorum⟩
  · rintro ⟨hmembers, hquorum⟩
    rw [← Stake.signerCount_eq_card] at hquorum
    exact ⟨_, Registry.examine_eq_ok.2 ⟨rfl, p, hparams, hmembers, hd, hquorum⟩, rfl⟩

/-- A delegation names a version of the parameters, whose committee has passed its checks. If the
delegation passes its own checks and is neither stored nor drafted, it is admitted if and only if
only members have signed it, and as many of the committee as the quorum asks for. Once the whole
committee has signed it, only a signature by somebody else can keep it from being admitted. The keys
that have signed a delegation that is admitted are never more than the committee has. -/
theorem admits_iff_members (hp : p.check = .ok ())
    (hparams : base.params.get? d.paramsVersion = some p) (hd : Delegation.check d = .ok ())
    (hstored : base.stakes.get? (Delegation.hash d) = none)
    (hdrafted : draft.stakes.get? (Delegation.hash d) = none) :
    (draft.Admits base d ↔
        (∀ sig ∈ d.memberSignatures, sig.signer ∈ p.committee) ∧
          p.quorum.toNat ≤ (p.signingMembers d).length) ∧
      ((∀ key ∈ p.committee, key ∈ Delegation.signers d) →
        (draft.Admits base d ↔ ∀ sig ∈ d.memberSignatures, sig.signer ∈ p.committee)) ∧
      (draft.Admits base d → signerCount d.memberSignatures ≤ p.committee.length) := by
  obtain ⟨_, hnodup, hquorum⟩ := StakingParams.check_eq_ok.1 hp
  have hadmits : draft.Admits base d ↔
      p.SignedByMembers d ∧ p.quorum.toNat ≤ (p.signingMembers d).length := by
    rw [admits_iff_signers hparams hd hstored hdrafted]
    refine and_congr_right fun hmembers => ?_
    rw [StakingParams.length_signingMembers hmembers hnodup]
  refine ⟨hadmits, fun hall => ?_, fun h => ?_⟩
  · rw [hadmits, StakingParams.signingMembers_of_all hall]
    exact and_iff_left hquorum
  · rw [Stake.signerCount_eq_card]
    exact StakingParams.card_signers_le (hadmits.1 h).1

/-- A delegation that one of two members has signed, for a quorum of one. -/
theorem admits_iff_members_admitted :
    Draft.empty.Admits Sample.registry Sample.admitted ∧
      signerCount Sample.admitted.memberSignatures ≤ [Sample.key 1, Sample.key 2].length := by
  have hp : StakingParams.check ⟨[Sample.key 1, Sample.key 2], 1⟩ = .ok () :=
    toOption_eq_some.1 (by decide +kernel)
  have hd : Delegation.check Sample.admitted = .ok () := toOption_eq_some.1 (by decide +kernel)
  have hparams : Sample.registry.params.get? Sample.admitted.paramsVersion =
      some ⟨[Sample.key 1, Sample.key 2], 1⟩ := rfl
  have hstored : Sample.registry.stakes.get? (Delegation.hash Sample.admitted) = none := rfl
  have hdrafted : Draft.empty.stakes.get? (Delegation.hash Sample.admitted) = none := rfl
  obtain ⟨hiff, _, hcount⟩ := admits_iff_members hp hparams hd hstored hdrafted
  have hadmits := hiff.2 (by decide +kernel)
  exact ⟨hadmits, hcount hadmits⟩

end Draft

end Restaking
