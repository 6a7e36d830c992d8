import Restaking.Proofs.Results
import Restaking.Proofs.Tables
import Restaking.Registry.Draft

/-!
# Packets written straight to the registry

The registry takes in a packet through a draft, which is committed at the end. Here each entry is
written to the registry at once (`register`, `accept`, `slash`, `unbond`, and `apply` for a whole
packet), and the two ways are shown to be the same.

1. What can be read through a draft is what can be read once it is committed (`get?_commit`,
   `contains_commit`), and a write to the draft is a write to the committed registry.
2. So every entry has the same effect, or the same error, in both ways.
3. Folding over the lists of a packet gives `commit_ofPacket`.
-/

namespace Restaking

namespace Registry

/-! ## Writes -/

/-- Puts a provider under its id. -/
def putProvider (r : Registry) (p : Provider) : Registry :=
  { r with providers := r.providers.insert p.id p }

/-- Puts a stake under a hash. -/
def putStake (r : Registry) (hash : TxHash) (s : Stake) : Registry :=
  { r with stakes := r.stakes.insert hash s }

theorem get?_putProvider (r : Registry) (p : Provider) (id : ProviderId) :
    (r.putProvider p).providers.get? id = if id = p.id then some p else r.providers.get? id :=
  Table.get?_insert r.providers p.id id p

theorem get?_putStake (r : Registry) (hash j : TxHash) (s : Stake) :
    (r.putStake hash s).stakes.get? j = if j = hash then some s else r.stakes.get? j :=
  Table.get?_insert r.stakes hash j s

/-- Putting back the stake that is there changes nothing. -/
theorem putStake_eq_self {r : Registry} {hash : TxHash} {s : Stake}
    (h : r.stakes.get? hash = some s) : r.putStake hash s = r := by
  unfold putStake
  rw [Table.insert_eq_self h]

/-! ## Entries -/

/-- Registers a provider. -/
def register (r : Registry) (p : Provider) : Except RegistryError Registry := do
  p.check.mapError .staking
  demand (r.providers.contains p.id = false) (.staking (.repeatedProvider p.consumer p.key))
  return r.putProvider p

/-- The stake that a delegation becomes, if the parameters of the version that it names allow it. -/
def examine (r : Registry) (d : Delegation) : Except RegistryError Stake := do
  let params ← r.paramsOf d.paramsVersion
  match d.memberSignatures.find? fun s => !params.isMember s.signer with
  | some s => .error (.notAMember s.signer)
  | none => (Stake.accept d params.quorum).mapError .staking

/-- Admits a delegation, and tells whether it is new. -/
def accept (r : Registry) (d : Delegation) : Except RegistryError (Bool × Registry) :=
  match r.stakes.get? (Delegation.hash d) with
  | some s =>
    if s.id.delegator = d.delegator then .ok (false, r)
    else .error (.delegationExists (Delegation.hash d).text)
  | none => (fun s => (true, r.putStake (Delegation.hash d) s)) <$> r.examine d

/-- Admits a delegation, new or not. -/
def enroll (r : Registry) (d : Delegation) : Except RegistryError Registry :=
  Prod.snd <$> r.accept d

/-- Admits delegations one after the other, and counts the new ones. -/
def acceptAll (r : Registry) : List Delegation → Except RegistryError (Nat × Registry)
  | [] => .ok (0, r)
  | d :: rest => do
    let (new, r) ← r.accept d
    let (count, r) ← r.acceptAll rest
    return (if new then count + 1 else count, r)

/-- The stake whose staking transaction a text names, with its hash. -/
def find (r : Registry) (text : String) : Except RegistryError (TxHash × Stake) := do
  let hash ← Draft.hashOfText text
  match r.stakes.get? hash with
  | some s => .ok (hash, s)
  | none => .error (.delegationNotFound text)

/-- Records a slashing. -/
def slash (r : Registry) (n : SlashNotice) : Except RegistryError Registry := do
  let (hash, s) ← r.find n.stakingTx
  return r.putStake hash s.slash

/-- Records an unbonding. -/
def unbond (r : Registry) (n : UnbondNotice) : Except RegistryError Registry := do
  let (hash, s) ← r.find n.stakingTx
  let s ← if s.isActive then (s.beginUnbonding n.signature).mapError .staking else pure s
  return r.putStake hash s.unbond

/-- Takes in the entries of a packet, and counts the new delegations. -/
def apply (r : Registry) (p : Packet) : Except RegistryError (Nat × Registry) := do
  let r ← p.providers.foldlM register r
  let (count, r) ← r.acceptAll p.delegations
  let r ← p.slashings.foldlM slash r
  let r ← p.unbondings.foldlM unbond r
  return (count, r)

end Registry

/-! ## Drafts -/

namespace Draft

variable (base : Registry) (d : Draft)

/-- Whether the admission is that of a new delegation. -/
def Admission.isNew : Admission → Bool
  | .new _ => true
  | .known _ => false

@[simp] theorem commit_empty : empty.commit base = base := rfl

theorem get?_commit (hash : TxHash) :
    (d.commit base).stakes.get? hash = d.stake? base hash := by
  unfold commit stake?
  rw [Table.get?_overlay]
  cases d.stakes.get? hash <;> rfl

theorem contains_commit (id : ProviderId) :
    (d.commit base).providers.contains id = d.hasProvider base id := by
  unfold commit hasProvider Table.contains
  rw [Table.get?_overlay, Option.isSome_or]

theorem commit_putStake (hash : TxHash) (s : Stake) :
    (d.putStake hash s).commit base = (d.commit base).putStake hash s := by
  unfold putStake commit Registry.putStake
  rw [Table.overlay_insert]

theorem commit_register (p : Provider) :
    (·.commit base) <$> register base d p = (d.commit base).register p := by
  unfold register Registry.register
  rw [contains_commit]
  cases p.check with
  | error e => rfl
  | ok _ =>
    by_cases h : d.hasProvider base p.id = false
    · simp only [mapError_ok, ok_bind, demand_eq_ok.2 h, pure_eq_ok, map_ok, commit,
        Registry.putProvider, Table.overlay_insert]
    · simp only [mapError_ok, ok_bind, demand_neg h, error_bind, map_error]

theorem acceptNew_eq_map (candidate : Delegation) :
    acceptNew base d candidate =
      (fun s => (.new s, d.putStake (Delegation.hash candidate) s)) <$> base.examine candidate := by
  unfold acceptNew Registry.examine
  cases base.paramsOf candidate.paramsVersion with
  | error e => rfl
  | ok params =>
    simp only [ok_bind]
    cases candidate.memberSignatures.find? fun s => !params.isMember s.signer with
    | some s => rfl
    | none => cases Stake.accept candidate params.quorum <;> rfl

theorem commit_accept (candidate : Delegation) :
    (fun x => (x.1.isNew, x.2.commit base)) <$> d.accept base candidate =
      (d.commit base).accept candidate := by
  unfold accept Registry.accept
  rw [get?_commit]
  cases d.stake? base (Delegation.hash candidate) with
  | none =>
    simp only [acceptNew_eq_map, Functor.map_map, commit_putStake]
    rfl
  | some s =>
    dsimp only
    split_ifs <;> rfl

theorem commit_acceptAll (candidates : List Delegation) :
    (fun x => (x.1, x.2.commit base)) <$> acceptAll base d candidates =
      (d.commit base).acceptAll candidates := by
  induction candidates generalizing d with
  | nil => rfl
  | cons candidate rest ih =>
    rw [acceptAll, Registry.acceptAll, ← commit_accept]
    cases d.accept base candidate with
    | error e => rfl
    | ok x =>
      obtain ⟨admission, d'⟩ := x
      simp only [ok_bind, map_ok, ← ih]
      cases acceptAll base d' rest with
      | error e => rfl
      | ok y => cases admission <;> rfl

theorem find_commit (text : String) : (d.commit base).find text = d.find base text := by
  unfold find Registry.find
  cases hashOfText text with
  | error e => rfl
  | ok hash => cases hs : d.stake? base hash <;> simp only [ok_bind, get?_commit, hs]

theorem commit_slash (n : SlashNotice) :
    (·.commit base) <$> slash base d n = (d.commit base).slash n := by
  unfold slash Registry.slash
  rw [find_commit]
  cases d.find base n.stakingTx with
  | error e => rfl
  | ok x => exact congrArg Except.ok (commit_putStake base d x.1 _)

theorem commit_unbond (n : UnbondNotice) :
    (·.commit base) <$> unbond base d n = (d.commit base).unbond n := by
  unfold unbond Registry.unbond
  rw [find_commit]
  cases d.find base n.stakingTx with
  | error e => rfl
  | ok x =>
    simp only [ok_bind]
    split_ifs
    · cases x.2.beginUnbonding n.signature with
      | error e => rfl
      | ok s => exact congrArg Except.ok (commit_putStake base d x.1 _)
    · exact congrArg Except.ok (commit_putStake base d x.1 _)

/-- Taking a packet into a draft and committing it is writing its entries one by one. -/
theorem commit_ofPacket (p : Packet) :
    (fun x => (x.1, x.2.commit base)) <$> ofPacket base p = base.apply p := by
  have hproviders := foldlM_map_state (fun d : Draft => d.commit base) (commit_register base)
    p.providers empty
  have hslashings := foldlM_map_state (fun d : Draft => d.commit base) (commit_slash base)
    p.slashings
  have hunbondings := foldlM_map_state (fun d : Draft => d.commit base) (commit_unbond base)
    p.unbondings
  unfold ofPacket Registry.apply
  rw [commit_empty] at hproviders
  rw [← hproviders]
  cases p.providers.foldlM (register base) empty with
  | error e => rfl
  | ok d =>
    simp only [ok_bind, map_ok, ← commit_acceptAll]
    cases acceptAll base d p.delegations with
    | error e => rfl
    | ok x =>
      simp only [ok_bind, map_ok, ← hslashings]
      cases p.slashings.foldlM (slash base) x.2 with
      | error e => rfl
      | ok d =>
        simp only [ok_bind, map_ok, ← hunbondings]
        cases p.unbondings.foldlM (unbond base) d <;> rfl

end Draft

end Restaking
