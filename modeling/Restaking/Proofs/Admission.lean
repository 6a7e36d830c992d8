import Restaking.Proofs.Backing
import Restaking.Proofs.Delegations

/-!
# Which delegations are admitted

A delegation is admitted if and only if it is well-formed and has been signed by as many members as
the quorum asks for, however often each of them has signed (`accept_iff`).

The quorum is looked at last, so it decides if nothing else is wrong (`accept_of_wellFormed`), and
is never told of otherwise (`accept_of_not_wellFormed`).
-/

namespace Restaking.Stake

theorem signerCount_eq_card (d : Delegation) :
    signerCount d.memberSignatures = (Delegation.signers d).card :=
  countDistinct_eq_card _

variable {d : Delegation}

/-- Of a well-formed delegation only the quorum is asked. -/
theorem accept_of_wellFormed (h : d.WellFormed) (quorum : UInt32) :
    accept d quorum =
      if quorum.toNat ≤ (Delegation.signers d).card then .ok (.active d)
      else .error (.quorumNotMet (Delegation.signers d).card quorum) := by
  unfold accept demand
  rw [Delegation.check_eq_ok.2 h, ok_bind, signerCount_eq_card]
  split <;> rfl

/-- Of any other delegation the quorum is never asked. -/
theorem accept_of_not_wellFormed (h : ¬ d.WellFormed) (quorum : UInt32) :
    ∃ e, accept d quorum = .error (.malformed e) := by
  obtain ⟨e, he⟩ := Delegation.check_eq_malformed h
  refine ⟨e, ?_⟩
  unfold accept
  rw [he, error_bind]

/-- A delegation is admitted, as it is, if and only if it is well-formed and the keys of the members
that have signed it are as many as the quorum. If only the last condition fails, the error is that
the quorum is not met, and tells the number of these keys. In all other cases the delegation is
malformed. -/
theorem accept_iff (d : Delegation) (quorum : UInt32) :
    (∀ s, accept d quorum = .ok s ↔
        s = .active d ∧ d.WellFormed ∧ quorum.toNat ≤ (Delegation.signers d).card) ∧
      (∀ n q, accept d quorum = .error (.quorumNotMet n q) ↔
        d.WellFormed ∧ (Delegation.signers d).card < quorum.toNat ∧
          n = (Delegation.signers d).card ∧ q = quorum) ∧
      ((∃ e, accept d quorum = .error (.malformed e)) ↔ ¬ d.WellFormed) := by
  by_cases h : d.WellFormed
  · rw [accept_of_wellFormed h]
    by_cases hquorum : quorum.toNat ≤ (Delegation.signers d).card
    · simp [h, hquorum, Nat.not_lt.2 hquorum, eq_comm]
    · simp [h, hquorum, Nat.not_le.1 hquorum, eq_comm]
  · obtain ⟨e, he⟩ := accept_of_not_wellFormed h quorum
    rw [he]
    simp [h]

/-- A member that signs twice counts once. -/
example :
    accept { Sample.admitted with
        memberSignatures := [⟨Sample.key 2, [[4]]⟩, ⟨Sample.key 2, [[5]]⟩] } 2 =
      .error (.quorumNotMet 1 2) := by
  decide +kernel

end Restaking.Stake
