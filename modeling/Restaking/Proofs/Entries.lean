import Restaking.Proofs.Direct

/-!
# What an entry of a packet does

Each kind of entry is inverted once: when it succeeds, and what it writes. Everything that is proved
about packets goes through these statements, and no other proof looks into the code of an entry.

A stake that is written over changes in one of two ways only, and only as long as it has not come to
its end (`Stake.Becomes`).
-/

namespace Restaking

/-! ## Stakes -/

namespace Stake

@[simp] theorem isTerminal_slashed (id : DelegationId) : (slashed id).isTerminal = true := rfl

@[simp] theorem isTerminal_unbonded (id : DelegationId) : (unbonded id).isTerminal = true := rfl

theorem slash_of_isTerminal {s : Stake} (h : s.isTerminal = true) : s.slash = s := if_pos h

theorem unbond_of_isTerminal {s : Stake} (h : s.isTerminal = true) : s.unbond = s := if_pos h

theorem slash_of_live {s : Stake} (h : s.isTerminal = false) : s.slash = .slashed s.id := by
  unfold slash
  rw [h, if_neg Bool.false_ne_true]

theorem unbond_of_live {s : Stake} (h : s.isTerminal = false) : s.unbond = .unbonded s.id := by
  unfold unbond
  rw [h, if_neg Bool.false_ne_true]

@[simp] theorem isTerminal_slash (s : Stake) : s.slash.isTerminal = true := by
  by_cases h : s.isTerminal = true
  · rw [slash_of_isTerminal h, h]
  · rw [slash_of_live (Bool.eq_false_iff.2 h), isTerminal_slashed]

@[simp] theorem isTerminal_unbond (s : Stake) : s.unbond.isTerminal = true := by
  by_cases h : s.isTerminal = true
  · rw [unbond_of_isTerminal h, h]
  · rw [unbond_of_live (Bool.eq_false_iff.2 h), isTerminal_unbonded]

/-- How a stake may change: not at all, or from a live stage to an end. -/
inductive Becomes (s : Stake) : Stake → Prop
  | same : Becomes s s
  | slashed (live : s.isTerminal = false) : Becomes s (.slashed s.id)
  | unbonded (live : s.isTerminal = false) : Becomes s (.unbonded s.id)

theorem becomes_slash (s : Stake) : s.Becomes s.slash := by
  by_cases h : s.isTerminal = true
  · rw [slash_of_isTerminal h]
    exact .same
  · have live := Bool.eq_false_iff.2 h
    rw [slash_of_live live]
    exact .slashed live

theorem becomes_unbond (s : Stake) : s.Becomes s.unbond := by
  by_cases h : s.isTerminal = true
  · rw [unbond_of_isTerminal h]
    exact .same
  · have live := Bool.eq_false_iff.2 h
    rw [unbond_of_live live]
    exact .unbonded live

namespace Becomes

variable {s t u : Stake}

theorem id_eq (h : s.Becomes t) : t.id = s.id := by
  cases h <;> rfl

/-- The end is the end. -/
theorem eq_of_isTerminal (h : s.Becomes t) (hs : s.isTerminal = true) : t = s := by
  cases h with
  | same => rfl
  | slashed live => rw [hs] at live; cases live
  | unbonded live => rw [hs] at live; cases live

theorem trans (h : s.Becomes t) (h' : t.Becomes u) : s.Becomes u := by
  cases h with
  | same => exact h'
  | slashed live => exact h'.eq_of_isTerminal rfl ▸ .slashed live
  | unbonded live => exact h'.eq_of_isTerminal rfl ▸ .unbonded live

end Becomes

end Stake

/-! ## Texts that name a transaction -/

/-- The text spells the hash in hexadecimal, in either letter case. -/
def Names (text : String) (hash : TxHash) : Prop := Hex.decode text = .ok hash.bytes

instance (text : String) (hash : TxHash) : Decidable (Names text hash) :=
  decidable_of_iff ((Hex.decode text).toOption = some hash.bytes) (by
    unfold Names
    cases Hex.decode text <;> simp [Except.toOption])

theorem TxHash.ext {hash hash' : TxHash} (h : hash.bytes = hash'.bytes) : hash = hash' := by
  obtain ⟨bytes, hb⟩ := hash
  obtain ⟨bytes', hb'⟩ := hash'
  subst h
  rfl

theorem Names.unique {text : String} {hash hash' : TxHash} (h : Names text hash)
    (h' : Names text hash') : hash = hash' := TxHash.ext (Except.ok.inj (h.symm.trans h'))

theorem hashOfText_eq_ok {text : String} {hash : TxHash} :
    Draft.hashOfText text = .ok hash ↔ Names text hash := by
  unfold Draft.hashOfText Names TxHash.ofBytes?
  cases Hex.decode text with
  | error e => simp
  | ok bytes =>
    simp only [mapError_ok, ok_bind, Except.ok.injEq]
    by_cases h : bytes.length = hashLength
    · simp only [h, dif_pos, Except.ok.injEq]
      exact ⟨fun e => e ▸ rfl, fun e => TxHash.ext e⟩
    · have hne : bytes ≠ hash.bytes := fun e => h (e ▸ hash.length_bytes)
      simp [h, hne]

namespace Registry

variable {r r' : Registry}

/-! ## Entries -/

theorem register_eq_ok {p : Provider} :
    r.register p = .ok r' ↔
      p.check = .ok () ∧ r.providers.get? p.id = none ∧ r' = r.putProvider p := by
  unfold register Table.contains
  rw [check_bind_eq_ok, mapError_eq_ok, check_bind_eq_ok, demand_eq_ok, Option.isSome_eq_false_iff,
    Option.isNone_iff_eq_none, pure_eq_ok, Except.ok.injEq, eq_comm (b := r')]

theorem paramsOf_eq_ok {version : UInt32} {params : StakingParams} :
    r.paramsOf version = .ok params ↔ r.params.get? version = some params := by
  unfold paramsOf
  cases r.params.get? version <;> simp

/-- A delegation is examined against the parameters of its version: all its signers are on the
committee, it is well-formed, and there are enough signers. -/
theorem examine_eq_ok {d : Delegation} {s : Stake} :
    r.examine d = .ok s ↔
      s = .active d ∧ ∃ params, r.params.get? d.paramsVersion = some params ∧
        (∀ sig ∈ d.memberSignatures, sig.signer ∈ params.committee) ∧
        Delegation.check d = .ok () ∧
        params.quorum.toNat ≤ signerCount d.memberSignatures := by
  have hfind : ∀ params : StakingParams,
      (d.memberSignatures.find? fun sig => !params.isMember sig.signer) = none ↔
        ∀ sig ∈ d.memberSignatures, sig.signer ∈ params.committee := by
    intro params
    simp [StakingParams.isMember]
  unfold examine
  rw [bind_eq_ok, ← exists_and_left]
  refine exists_congr fun params => ?_
  rw [paramsOf_eq_ok, and_left_comm, ← hfind params]
  refine and_congr_right fun _ => ?_
  cases d.memberSignatures.find? fun sig => !params.isMember sig.signer with
  | some sig => simp
  | none =>
    unfold Stake.accept
    rw [mapError_eq_ok, check_bind_eq_ok, check_bind_eq_ok, demand_eq_ok, pure_eq_ok]
    simp only [true_and, Except.ok.injEq, eq_comm (a := s)]
    exact and_rotate.symm

theorem accept_eq_ok {d : Delegation} {new : Bool} :
    r.accept d = .ok (new, r') ↔
      (∃ s, r.stakes.get? (Delegation.hash d) = some s ∧ s.id.delegator = d.delegator ∧
        new = false ∧ r' = r) ∨
      (r.stakes.get? (Delegation.hash d) = none ∧ new = true ∧
        ∃ s, r.examine d = .ok s ∧ r' = r.putStake (Delegation.hash d) s) := by
  unfold accept
  cases r.stakes.get? (Delegation.hash d) with
  | none =>
    dsimp only
    rw [map_eq_ok]
    constructor
    · rintro ⟨s, hs, h⟩
      obtain ⟨rfl, rfl⟩ := Prod.mk.inj h
      exact .inr ⟨rfl, rfl, s, hs, rfl⟩
    · rintro (⟨s, hs, _⟩ | ⟨_, rfl, s, hs, rfl⟩)
      · cases hs
      · exact ⟨s, hs, rfl⟩
  | some s =>
    dsimp only
    split_ifs with h
    · simp [h, eq_comm]
    · simp [h]

theorem enroll_eq_ok {d : Delegation} :
    r.enroll d = .ok r' ↔
      (∃ s, r.stakes.get? (Delegation.hash d) = some s ∧ s.id.delegator = d.delegator ∧ r' = r) ∨
      (r.stakes.get? (Delegation.hash d) = none ∧
        ∃ s, r.examine d = .ok s ∧ r' = r.putStake (Delegation.hash d) s) := by
  unfold enroll
  rw [map_eq_ok, Prod.exists]
  constructor
  · rintro ⟨new, s, h, rfl⟩
    rcases accept_eq_ok.1 h with ⟨t, ht, hd, _, rfl⟩ | ⟨hnew, _, t, ht, rfl⟩
    · exact .inl ⟨t, ht, hd, rfl⟩
    · exact .inr ⟨hnew, t, ht, rfl⟩
  · rintro (⟨t, ht, hd, rfl⟩ | ⟨hnew, t, ht, rfl⟩)
    · exact ⟨false, _, accept_eq_ok.2 (.inl ⟨t, ht, hd, rfl, rfl⟩), rfl⟩
    · exact ⟨true, _, accept_eq_ok.2 (.inr ⟨hnew, rfl, t, ht, rfl⟩), rfl⟩

theorem find_eq_ok {text : String} {hash : TxHash} {s : Stake} :
    r.find text = .ok (hash, s) ↔ Names text hash ∧ r.stakes.get? hash = some s := by
  unfold find
  rw [← hashOfText_eq_ok]
  cases Draft.hashOfText text with
  | error e => simp
  | ok hash' =>
    simp only [ok_bind, Except.ok.injEq]
    constructor
    · intro h
      cases hs : r.stakes.get? hash' with
      | none => simp [hs] at h
      | some s' =>
        simp only [hs, Except.ok.injEq, Prod.mk.injEq] at h
        obtain ⟨rfl, rfl⟩ := h
        exact ⟨rfl, hs⟩
    · rintro ⟨rfl, hs⟩
      rw [hs]

theorem slash_eq_ok {n : SlashNotice} :
    r.slash n = .ok r' ↔ ∃ hash s, Names n.stakingTx hash ∧ r.stakes.get? hash = some s ∧
      r' = r.putStake hash s.slash := by
  unfold slash
  rw [bind_eq_ok, Prod.exists]
  simp only [find_eq_ok, pure_eq_ok, Except.ok.injEq, and_assoc, eq_comm (a := r')]

theorem unbond_eq_ok {n : UnbondNotice} :
    r.unbond n = .ok r' ↔ ∃ hash s, Names n.stakingTx hash ∧ r.stakes.get? hash = some s ∧
      (s.isActive = true → n.signature ≠ []) ∧ r' = r.putStake hash s.unbond := by
  unfold unbond
  rw [bind_eq_ok, Prod.exists]
  simp only [find_eq_ok, and_assoc]
  refine exists_congr fun hash => exists_congr fun s => and_congr_right fun _ =>
    and_congr_right fun _ => ?_
  cases s with
  | active d =>
    by_cases h : n.signature = []
    · simp [Stake.isActive, Stake.stage, Stake.beginUnbonding, h]
    · simp only [Stake.isActive, Stake.stage, Stake.beginUnbonding, h, decide_true, if_true,
        if_false, mapError_ok, ok_bind, pure_eq_ok, Except.ok.injEq, ne_eq, not_false_eq_true,
        implies_true, true_and, eq_comm (a := r')]
      rfl
  | unbonding u => simp [Stake.isActive, Stake.stage, eq_comm]
  | slashed id => simp [Stake.isActive, Stake.stage, eq_comm]
  | unbonded id => simp [Stake.isActive, Stake.stage, eq_comm]

end Registry

end Restaking
