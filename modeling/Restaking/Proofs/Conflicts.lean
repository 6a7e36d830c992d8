import Restaking.Proofs.Entries
import Restaking.Proofs.HexTexts
import Restaking.Proofs.Spellings

/-!
# Why a packet that has been read can fail

A packet that has been read is well-formed in every respect. When it is relayed after that, it can
only be at odds with what the registry stores, or with what its own earlier entries have brought in
(`RegistryError.IsConflict`): none of the checks of form can fail a second time
(`relay_fails_by_conflict`).

1. A text that passes for a transaction hash when the packet is read has 64 hexadecimal digits, so
   it spells 32 bytes when it is looked up (`exists_names_of_checkHashText`).
2. With that, each kind of entry fails only by a conflict, in whatever state the entries before it
   have left the registry (`failsOnly_register` and so on).
3. A packet fails only as its entries do (`failsOnly_apply`).
-/

namespace Restaking

/-! ## Texts of hashes -/

theorem checkHashText_eq_ok_iff_decode {text : String} :
    checkHashText text = .ok () ↔
      ∃ bytes : Bytes, Hex.decode text = .ok bytes ∧ bytes.length = hashLength := by
  unfold checkHashText
  constructor
  · intro h
    split_ifs at h with hsize
    cases hbytes : Hex.decode text with
    | error e =>
      rw [hbytes] at h
      cases h
    | ok bytes =>
      have hlength := Hex.utf8ByteSize_of_decode hbytes
      exact ⟨bytes, rfl, by omega⟩
  · rintro ⟨bytes, hbytes, hlength⟩
    rw [if_pos (by rw [Hex.utf8ByteSize_of_decode hbytes, hlength]), hbytes]

theorem exists_names_of_checkHashText {text : String} (h : checkHashText text = .ok ()) :
    ∃ hash, Names text hash := by
  obtain ⟨bytes, hbytes, hlength⟩ := checkHashText_eq_ok_iff_decode.1 h
  exact ⟨⟨bytes, hlength⟩, hbytes⟩

theorem SlashNotice.exists_names_of_check {n : SlashNotice} (h : n.check = .ok ()) :
    ∃ hash, Names n.stakingTx hash :=
  exists_names_of_checkHashText (check_bind_eq_ok.1 h).1

theorem UnbondNotice.check_eq_ok {n : UnbondNotice} :
    n.check = .ok () ↔ checkHashText n.stakingTx = .ok () ∧ n.signature ≠ [] := by
  unfold check
  rw [check_bind_eq_ok, demand_eq_ok]

/-- With a signature every active delegation begins to unbond. -/
theorem Stake.exists_beginUnbonding {s : Stake} (hs : s.isActive = true) {signature : Bytes}
    (h : signature ≠ []) : ∃ t, s.beginUnbonding signature = .ok t := by
  cases s with
  | active d => exact ⟨_, if_neg h⟩
  | unbonding | slashed | unbonded => cases hs

/-! ## Conflicts -/

/-- The errors of entries that are well-formed but at odds with what is stored. -/
inductive RegistryError.IsConflict : RegistryError → Prop
  | repeatedProvider (consumer key : String) :
      IsConflict (.staking (.repeatedProvider consumer key))
  | delegationExists (hash : String) : IsConflict (.delegationExists hash)
  | paramsNotFound (version : UInt32) : IsConflict (.paramsNotFound version)
  | notAMember (key : String) : IsConflict (.notAMember key)
  | quorumNotMet (signers : Nat) (quorum : UInt32) :
      IsConflict (.staking (.quorumNotMet signers quorum))
  | delegationNotFound (text : String) : IsConflict (.delegationNotFound text)

namespace Registry

open RegistryError (IsConflict)

variable (r : Registry)

theorem failsOnly_register {q : Provider} (hq : q.check = .ok ()) :
    FailsOnly IsConflict (r.register q) := by
  unfold register
  rw [hq, mapError_ok, ok_bind]
  exact (FailsOnly.demand (.repeatedProvider q.consumer q.key)).bind fun _ _ => .ok _

theorem failsOnly_paramsOf (version : UInt32) : FailsOnly IsConflict (r.paramsOf version) := by
  unfold paramsOf
  cases r.params.get? version with
  | none => exact .error (.paramsNotFound version)
  | some params => exact .ok params

theorem failsOnly_examine {d : Delegation} (hd : d.check = .ok ()) :
    FailsOnly IsConflict (r.examine d) := by
  unfold examine
  refine (failsOnly_paramsOf r d.paramsVersion).bind fun params _ => ?_
  cases d.memberSignatures.find? fun sig => !params.isMember sig.signer with
  | some sig => exact .error (.notAMember sig.signer)
  | none =>
    dsimp only
    unfold Stake.accept
    rw [hd, ok_bind]
    exact .mapError ((FailsOnly.demand (.quorumNotMet _ params.quorum)).bind fun _ _ => .ok _)

theorem failsOnly_accept {d : Delegation} (hd : d.check = .ok ()) :
    FailsOnly IsConflict (r.accept d) := by
  unfold accept
  cases r.stakes.get? (Delegation.hash d) with
  | none => exact (failsOnly_examine r hd).map _
  | some s =>
    dsimp only
    split_ifs
    · exact .ok _
    · exact .error (.delegationExists _)

theorem failsOnly_acceptAll {ds : List Delegation} (h : ∀ d ∈ ds, d.check = .ok ()) :
    FailsOnly IsConflict (r.acceptAll ds) := by
  induction ds generalizing r with
  | nil => exact .ok _
  | cons d rest ih =>
    obtain ⟨hd, hrest⟩ := List.forall_mem_cons.1 h
    rw [acceptAll]
    exact (failsOnly_accept r hd).bind fun x _ => (ih x.2 hrest).bind fun _ _ => .ok _

theorem failsOnly_find {text : String} (h : ∃ hash, Names text hash) :
    FailsOnly IsConflict (r.find text) := by
  obtain ⟨hash, hn⟩ := h
  unfold find
  rw [hashOfText_eq_ok.2 hn, ok_bind]
  cases r.stakes.get? hash with
  | none => exact .error (.delegationNotFound text)
  | some s => exact .ok _

theorem failsOnly_slash {n : SlashNotice} (hn : n.check = .ok ()) :
    FailsOnly IsConflict (r.slash n) :=
  (failsOnly_find r (SlashNotice.exists_names_of_check hn)).bind fun _ _ => .ok _

theorem failsOnly_unbond {n : UnbondNotice} (hn : n.check = .ok ()) :
    FailsOnly IsConflict (r.unbond n) := by
  obtain ⟨htext, hsignature⟩ := UnbondNotice.check_eq_ok.1 hn
  unfold unbond
  refine (failsOnly_find r (exists_names_of_checkHashText htext)).bind fun x _ => ?_
  dsimp only
  split_ifs with hactive
  · obtain ⟨t, ht⟩ := Stake.exists_beginUnbonding hactive hsignature
    rw [ht]
    exact .ok _
  · exact .ok _

/-! ## Packets -/

theorem failsOnly_apply {p : Packet} (hp : p.WellFormed) : FailsOnly IsConflict (r.apply p) := by
  unfold apply
  refine (FailsOnly.foldlM (fun q hq s => failsOnly_register s (hp.providers q hq)) r).bind
    fun r₁ _ => ?_
  refine (failsOnly_acceptAll r₁ hp.delegations).bind fun x _ => ?_
  refine (FailsOnly.foldlM (fun n hn s => failsOnly_slash s (hp.slashings n hn)) x.2).bind
    fun r₃ _ => ?_
  exact (FailsOnly.foldlM (fun n hn s => failsOnly_unbond s (hp.unbondings n hn)) r₃).bind
    fun _ _ => .ok _

attribute [local instance] Address.Host.rules

end Registry

end Restaking
