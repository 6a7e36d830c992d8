import Restaking.Proofs.Growth
import Restaking.Proofs.Keys
import Mathlib.Data.Finset.Card

/-!
# Stored delegations are backed

Whatever has happened to a registry since it was set up, a stake is stored under the hash that its
own identity spells, its delegator's key is spelt in the one accepted way, and an active delegation
is backed by the parameters of the version that it names, *as they are stored now*: the signers are
members of the committee and as many as the quorum.

A delegation is held to these terms when it is admitted (`examine_vouches`). Later on the terms stay
the same, because a version is never written over (`Extends`), and the stake keeps its identity and
body for as long as it is active (`Vouches.becomes`). So every entry of a packet keeps the invariant
`Sound` (`apply_sound`), and so does every call (`Transition.sound`).
-/

namespace Restaking

/-! ## Keys and signers -/

/-- The text is the lowercase hexadecimal spelling of a key. -/
def Key.IsCanonical (text : String) : Prop :=
  ∃ bytes : Bytes, bytes.length = keyLength ∧ Hex.encode bytes = text

theorem Key.isCanonical_iff {text : String} : Key.IsCanonical text ↔ Key.IsSpelt text :=
  Hex.exists_encode_iff

theorem Key.isCanonical_of_check {text : String} (h : Key.check text = .ok ()) :
    Key.IsCanonical text :=
  Key.isCanonical_iff.2 (Key.check_eq_ok.1 h)

theorem countDistinct_eq_card (l : List String) : countDistinct l = l.toFinset.card := by
  induction l with
  | nil => rfl
  | cons text rest ih =>
    rw [countDistinct, ih, List.toFinset_cons]
    by_cases h : text ∈ rest
    · rw [if_pos h, Finset.insert_eq_of_mem (List.mem_toFinset.2 h), Nat.zero_add]
    · rw [if_neg h, Finset.card_insert_of_notMem (fun e => h (List.mem_toFinset.1 e)), Nat.add_comm]

/-- The keys of the members that have signed a delegation. -/
def Delegation.signers (d : Delegation) : Finset String :=
  (d.memberSignatures.map (·.signer)).toFinset

theorem Delegation.isCanonical_of_check {d : Delegation} (h : Delegation.check d = .ok ()) :
    Key.IsCanonical d.delegator :=
  Key.isCanonical_of_check (check_bind_eq_ok.1 (mapError_eq_ok.1 h)).1

namespace Registry

variable {r r' : Registry}

/-! ## Vouching -/

/-- A delegation is well-formed, and backed by the parameters that are stored under the version it
names. -/
def Backs (r : Registry) (d : Delegation) : Prop :=
  Delegation.check d = .ok () ∧ ∃ params, r.params.get? d.paramsVersion = some params ∧
    (∀ sig ∈ d.memberSignatures, sig.signer ∈ params.committee) ∧
    params.quorum.toNat ≤ (Delegation.signers d).card

/-- What the registry guarantees of a stake that is stored under a hash. -/
structure Vouches (r : Registry) (hash : TxHash) (s : Stake) : Prop where
  stakingTx : s.id.stakingTx = hash.text
  delegator : Key.IsCanonical s.id.delegator
  backs : ∀ d, s = .active d → r.Backs d

/-- Vouching outlasts new parameters. -/
theorem Vouches.mono {hash : TxHash} {s : Stake} (h : r.Vouches hash s)
    (hparams : ∀ {version params}, r.params.get? version = some params →
      r'.params.get? version = some params) : r'.Vouches hash s where
  stakingTx := h.stakingTx
  delegator := h.delegator
  backs d hd := by
    obtain ⟨hcheck, params, hp, hterms⟩ := h.backs d hd
    exact ⟨hcheck, params, hparams hp, hterms⟩

theorem Vouches.becomes {hash : TxHash} {s t : Stake} (h : r.Vouches hash s) (hb : s.Becomes t) :
    r.Vouches hash t where
  stakingTx := hb.id_eq ▸ h.stakingTx
  delegator := hb.id_eq ▸ h.delegator
  backs d hd := by
    cases hb with
    | same => exact h.backs d hd
    | slashed live => cases hd
    | unbonded live => cases hd

/-- A delegation that passes the examination is vouched for under its own hash. -/
theorem examine_vouches {d : Delegation} {s : Stake} (h : r.examine d = .ok s) :
    r.Vouches (Delegation.hash d) s := by
  obtain ⟨rfl, params, hparams, hmembers, hcheck, hquorum⟩ := examine_eq_ok.1 h
  refine ⟨rfl, Delegation.isCanonical_of_check hcheck, fun d' hd' => ?_⟩
  obtain rfl := Stake.active.inj hd'
  refine ⟨hcheck, params, hparams, hmembers, ?_⟩
  unfold Delegation.signers
  rw [← countDistinct_eq_card]
  exact hquorum

/-! ## The invariant -/

/-- Every stored stake is vouched for. -/
def Sound (r : Registry) : Prop := ∀ hash s, r.stakes.get? hash = some s → r.Vouches hash s

theorem sound_of_empty (h : r.stakes = .empty) : r.Sound := by
  intro hash s hs
  rw [h, Table.get?_empty] at hs
  cases hs

theorem Sound.putStake {hash : TxHash} {s : Stake} (h : r.Sound) (hs : r.Vouches hash s) :
    (r.putStake hash s).Sound := by
  intro j t ht
  rw [get?_putStake] at ht
  split_ifs at ht with e
  · obtain rfl := Option.some.inj ht
    subst e
    exact hs.mono id
  · exact (h j t ht).mono id

/-- A write that leaves the stakes alone and extends the rest keeps them vouched for. -/
theorem Sound.mono (h : r.Sound) (hr : r.Extends r') (hstakes : r'.stakes = r.stakes) :
    r'.Sound := by
  intro hash s hs
  rw [hstakes] at hs
  exact (h hash s hs).mono hr.params

theorem register_sound {p : Provider} (h : r.register p = .ok r') (hr : r.Sound) : r'.Sound := by
  have hext := register_extends h
  obtain ⟨_, _, rfl⟩ := register_eq_ok.1 h
  exact hr.mono hext rfl

theorem enroll_sound {d : Delegation} (h : r.enroll d = .ok r') (hr : r.Sound) : r'.Sound := by
  rcases enroll_eq_ok.1 h with ⟨s, _, _, rfl⟩ | ⟨_, s, hs, rfl⟩
  · exact hr
  · exact hr.putStake (examine_vouches hs)

theorem slash_sound {n : SlashNotice} (h : r.slash n = .ok r') (hr : r.Sound) : r'.Sound := by
  obtain ⟨hash, s, _, hs, rfl⟩ := slash_eq_ok.1 h
  exact hr.putStake ((hr hash s hs).becomes s.becomes_slash)

theorem unbond_sound {n : UnbondNotice} (h : r.unbond n = .ok r') (hr : r.Sound) : r'.Sound := by
  obtain ⟨hash, s, _, hs, _, rfl⟩ := unbond_eq_ok.1 h
  exact hr.putStake ((hr hash s hs).becomes s.becomes_unbond)

/-- Packets keep every stake vouched for. -/
theorem apply_sound {p : Packet} {count : Nat} (h : r.apply p = .ok (count, r')) :
    r.Sound → r'.Sound :=
  apply_rel (fun r r' => r.Sound → r'.Sound) (fun _ => id) (fun h h' => h' ∘ h)
    register_sound enroll_sound slash_sound unbond_sound h

/-! ## Calls and runs -/

/-- Calls keep every stake vouched for, whether they succeed or fail. -/
theorem Transition.sound [AddressHost] {e : Event} (h : r.Transition e r') (hr : r.Sound) :
    r'.Sound := by
  have hext := h.extends
  cases h with
  | none => exact hr
  | packet _ _ happly => exact apply_sound happly hr
  | admin | params | block => exact hr.mono hext rfl

theorem Reachable.sound [AddressHost] (h : r.Reachable) : r.Sound := by
  induction h with
  | setUp h => exact sound_of_empty (empty_of_setUp h).2
  | call _ e ih => exact (transition_after _ e).sound ih

/-- In every reachable registry each stake lies under the hash that its identity spells, its
delegator's key is canonical, and an active delegation passes its checks and is backed by the
parameters that are stored under its version. -/
theorem stakes_backed [AddressHost] (h : r.Reachable) {hash : TxHash} {s : Stake}
    (hs : (hash, s) ∈ r.stakes.entries) :
    s.id.stakingTx = hash.text ∧ Key.IsCanonical s.id.delegator ∧
      ∀ d, s = .active d → Delegation.check d = .ok () ∧
        ∃ params, r.params.get? d.paramsVersion = some params ∧
          (∀ sig ∈ d.memberSignatures, sig.signer ∈ params.committee) ∧
          params.quorum.toNat ≤ (Delegation.signers d).card := by
  have hv : r.Vouches hash s := h.sound hash s (Table.get?_eq_some_iff.2 hs)
  exact ⟨hv.stakingTx, hv.delegator, hv.backs⟩

attribute [local instance] Address.Host.rules

/-- A delegation that a packet has brought in is backed. -/
theorem stakes_backed_admitted :
    (Delegation.hash Sample.admitted, .active Sample.admitted) ∈ Sample.relayed.stakes.entries ∧
      ∃ params, Sample.relayed.params.get? 0 = some params ∧
        params.quorum.toNat ≤ (Delegation.signers Sample.admitted).card := by
  have hs : Sample.relayed.stakes.get? (Delegation.hash Sample.admitted) =
      some (.active Sample.admitted) := by decide +kernel
  rw [Table.get?_eq_some_iff] at hs
  obtain ⟨_, _, hd⟩ := stakes_backed Sample.reachable_relayed hs
  obtain ⟨_, params, hparams, _, hquorum⟩ := hd _ rfl
  exact ⟨hs, params, hparams, hquorum⟩

end Registry

end Restaking
