import Restaking.Proofs.Growth

/-!
# What a packet leaves behind

A packet is applied in four loops over the registry, and any number of its entries may concern the
same delegation. Here the result is told without an order: `Packet.base` is the stake before the
packet or else the first delegation with that hash, and `Packet.outcome` says how it ends.

1. Each loop is a closed form of lookups. Registering and admitting fill in what is missing
   (`get?_foldlM_register`, `get?_foldlM_enroll`); slashing and unbonding mark what is there
   (`get?_foldlM_mark`), and marking twice is marking once.
2. Both marks leave an ended stake alone, so of the two the slashing wins, which comes first
   (`outcome_eq`).
-/

namespace Restaking

/-! ## The outcome of a packet -/

namespace Packet

/-- Some entry of the packet is about the staking transaction with this hash. -/
def Concerns (p : Packet) (hash : TxHash) : Prop :=
  (∃ d ∈ p.delegations, Delegation.hash d = hash) ∨
    (∃ n ∈ p.slashings, Names n.stakingTx hash) ∨ ∃ n ∈ p.unbondings, Names n.stakingTx hash

/-- The stake that a packet finds or admits under a hash. -/
def base (r : Registry) (p : Packet) (hash : TxHash) : Option Stake :=
  (r.stakes.get? hash).or ((p.delegations.find? (Delegation.hash · = hash)).map .active)

/-- What a packet makes of a stake under a hash. -/
def outcome (p : Packet) (hash : TxHash) (s : Stake) : Stake :=
  if s.isTerminal then s
  else if ∃ n ∈ p.slashings, Names n.stakingTx hash then .slashed s.id
  else if ∃ n ∈ p.unbondings, Names n.stakingTx hash then .unbonded s.id
  else s

/-- The outcome is that of marking the stake as slashed, and then as unbonded. -/
theorem outcome_eq (p : Packet) (hash : TxHash) (s : Stake) :
    p.outcome hash s =
      let t := if ∃ n ∈ p.slashings, Names n.stakingTx hash then s.slash else s
      if ∃ n ∈ p.unbondings, Names n.stakingTx hash then t.unbond else t := by
  unfold outcome
  by_cases hs : s.isTerminal = true
  · simp only [hs, if_true, Stake.slash_of_isTerminal hs, ite_self, Stake.unbond_of_isTerminal hs]
  · have live := Bool.eq_false_iff.2 hs
    rw [if_neg hs]
    by_cases h : ∃ n ∈ p.slashings, Names n.stakingTx hash
    · -- the slashing comes first, and ends the stake before the unbonding is looked at
      rw [if_pos h, if_pos h, Stake.slash_of_live live]
      dsimp only
      rw [Stake.unbond_of_isTerminal (Stake.isTerminal_slashed _), ite_self]
    · rw [if_neg h, if_neg h, ← Stake.unbond_of_live live]

theorem outcome_of_not_concerns {p : Packet} {hash : TxHash} (h : ¬ p.Concerns hash) (s : Stake) :
    p.outcome hash s = s := by
  unfold Concerns at h
  rw [not_or, not_or] at h
  unfold outcome
  rw [if_neg h.2.1, if_neg h.2.2, ite_self]

theorem base_of_not_concerns {p : Packet} {hash : TxHash} (h : ¬ p.Concerns hash) (r : Registry) :
    p.base r hash = r.stakes.get? hash := by
  have hnone : p.delegations.find? (Delegation.hash · = hash) = none := by
    rw [List.find?_eq_none]
    intro d hd e
    exact h (.inl ⟨d, hd, of_decide_eq_true e⟩)
  unfold base
  rw [hnone, Option.map_none, Option.or_none]

end Packet

namespace Registry

variable {r r' : Registry}

/-! ## Filling in -/

theorem get?_register {p : Provider} (h : r.register p = .ok r') (id : ProviderId) :
    r'.providers.get? id = (r.providers.get? id).or (if p.id = id then some p else none) := by
  obtain ⟨_, hnew, rfl⟩ := register_eq_ok.1 h
  rw [get?_putProvider]
  by_cases e : p.id = id
  · rw [if_pos e.symm, if_pos e, ← e, hnew, Option.none_or]
  · rw [if_neg (Ne.symm e), if_neg e, Option.or_none]

theorem get?_foldlM_register {ps : List Provider} (h : ps.foldlM register r = .ok r')
    (id : ProviderId) :
    r'.providers.get? id = (r.providers.get? id).or (ps.find? (·.id = id)) := by
  induction ps generalizing r with
  | nil =>
    obtain rfl : r = r' := by simpa using h
    exact (Option.or_none).symm
  | cons p rest ih =>
    obtain ⟨s, hp, hrest⟩ := foldlM_cons_eq_ok.1 h
    rw [ih hrest, get?_register hp, Option.or_assoc, List.find?_cons]
    by_cases e : p.id = id <;> simp [e]

theorem get?_enroll {d : Delegation} (h : r.enroll d = .ok r') (hash : TxHash) :
    r'.stakes.get? hash =
      (r.stakes.get? hash).or (if Delegation.hash d = hash then some (.active d) else none) := by
  rcases enroll_eq_ok.1 h with ⟨s, hs, _, rfl⟩ | ⟨hnew, s, hs, rfl⟩
  · by_cases e : Delegation.hash d = hash
    · rw [← e, hs, Option.some_or]
    · rw [if_neg e, Option.or_none]
  · obtain ⟨rfl, _⟩ := examine_eq_ok.1 hs
    rw [get?_putStake]
    by_cases e : Delegation.hash d = hash
    · rw [if_pos e.symm, if_pos e, ← e, hnew, Option.none_or]
    · rw [if_neg (Ne.symm e), if_neg e, Option.or_none]

/-- Of several delegations with one hash the first is admitted. -/
theorem get?_foldlM_enroll {ds : List Delegation} (h : ds.foldlM enroll r = .ok r')
    (hash : TxHash) :
    r'.stakes.get? hash =
      (r.stakes.get? hash).or ((ds.find? (Delegation.hash · = hash)).map .active) := by
  induction ds generalizing r with
  | nil =>
    obtain rfl : r = r' := by simpa using h
    exact (Option.or_none).symm
  | cons d rest ih =>
    obtain ⟨s, hd, hrest⟩ := foldlM_cons_eq_ok.1 h
    rw [ih hrest, get?_enroll hd, Option.or_assoc, List.find?_cons]
    by_cases e : Delegation.hash d = hash <;> simp [e]

/-! ## Marking -/

/-- The step marks the stake that its entry names. -/
def Marks {α : Type} (step : Registry → α → Except RegistryError Registry) (text : α → String)
    (mark : Stake → Stake) : Prop :=
  ∀ r n r', step r n = .ok r' → ∀ hash, r'.stakes.get? hash =
    (r.stakes.get? hash).map fun s => if Names (text n) hash then mark s else s

theorem get?_putStake_mark {text : String} {named : TxHash} {s : Stake} (hn : Names text named)
    (hs : r.stakes.get? named = some s) (mark : Stake → Stake) (hash : TxHash) :
    (r.putStake named (mark s)).stakes.get? hash =
      (r.stakes.get? hash).map fun s => if Names text hash then mark s else s := by
  rw [get?_putStake]
  by_cases e : hash = named
  · rw [if_pos e, e, hs, Option.map_some, if_pos hn]
  · have hne : ¬ Names text hash := fun h => e (h.unique hn)
    simp only [if_neg e, if_neg hne, Option.map_id']

theorem slash_marks : Marks slash SlashNotice.stakingTx Stake.slash := by
  intro r n r' h
  obtain ⟨named, s, hn, hs, rfl⟩ := slash_eq_ok.1 h
  exact get?_putStake_mark hn hs Stake.slash

theorem unbond_marks : Marks unbond UnbondNotice.stakingTx Stake.unbond := by
  intro r n r' h
  obtain ⟨named, s, hn, hs, _, rfl⟩ := unbond_eq_ok.1 h
  exact get?_putStake_mark hn hs Stake.unbond

/-- However many entries name a stake, it is marked once. -/
theorem get?_foldlM_mark {α : Type} {step : Registry → α → Except RegistryError Registry}
    {text : α → String} {mark : Stake → Stake} (hstep : Marks step text mark)
    (hidem : ∀ s, mark (mark s) = mark s) {ns : List α} (h : ns.foldlM step r = .ok r')
    (hash : TxHash) :
    r'.stakes.get? hash =
      (r.stakes.get? hash).map fun s => if ∃ n ∈ ns, Names (text n) hash then mark s else s := by
  induction ns generalizing r with
  | nil =>
    obtain rfl : r = r' := by simpa using h
    simp
  | cons n rest ih =>
    obtain ⟨u, hn, hrest⟩ := foldlM_cons_eq_ok.1 h
    rw [ih hrest, hstep r n u hn, Option.map_map]
    congr 1
    funext s
    rw [Function.comp_apply]
    simp only [List.mem_cons, exists_eq_or_imp]
    by_cases hfirst : Names (text n) hash
    · simp [hfirst, hidem]
    · simp [hfirst]

/-! ## Packets -/

theorem slash_slash (s : Stake) : s.slash.slash = s.slash :=
  Stake.slash_of_isTerminal s.isTerminal_slash

theorem unbond_unbond (s : Stake) : s.unbond.unbond = s.unbond :=
  Stake.unbond_of_isTerminal s.isTerminal_unbond

theorem register_stakes {p : Provider} (h : r.register p = .ok r') : r.stakes = r'.stakes := by
  obtain ⟨_, _, rfl⟩ := register_eq_ok.1 h
  rfl

theorem enroll_providers {d : Delegation} (h : r.enroll d = .ok r') :
    r.providers = r'.providers := by
  rcases enroll_eq_ok.1 h with ⟨_, _, _, rfl⟩ | ⟨_, _, _, rfl⟩ <;> rfl

theorem slash_providers {n : SlashNotice} (h : r.slash n = .ok r') :
    r.providers = r'.providers := by
  obtain ⟨_, _, _, _, rfl⟩ := slash_eq_ok.1 h
  rfl

theorem unbond_providers {n : UnbondNotice} (h : r.unbond n = .ok r') :
    r.providers = r'.providers := by
  obtain ⟨_, _, _, _, _, rfl⟩ := unbond_eq_ok.1 h
  rfl

/-- The stakes after a packet. -/
theorem get?_stakes_apply {p : Packet} {count : Nat} (h : r.apply p = .ok (count, r'))
    (hash : TxHash) : r'.stakes.get? hash = (p.base r hash).map (p.outcome hash) := by
  obtain ⟨r₁, r₂, r₃, h₁, h₂, h₃, h₄⟩ := apply_eq_ok.1 h
  have hstakes : r.stakes = r₁.stakes := foldlM_keeps Registry.stakes register_stakes h₁
  rw [get?_foldlM_mark unbond_marks unbond_unbond h₄,
    get?_foldlM_mark slash_marks slash_slash h₃,
    get?_foldlM_enroll (foldlM_enroll_of_acceptAll h₂), ← hstakes, Option.map_map]
  congr 1
  funext s
  exact (Packet.outcome_eq p hash s).symm

/-- The providers after a packet are those after registering. -/
theorem providers_apply {p : Packet} {count : Nat} (h : r.apply p = .ok (count, r')) :
    ∃ r₁, p.providers.foldlM register r = .ok r₁ ∧ r₁.providers = r'.providers := by
  obtain ⟨r₁, r₂, r₃, h₁, h₂, h₃, h₄⟩ := apply_eq_ok.1 h
  refine ⟨r₁, h₁, ?_⟩
  calc r₁.providers
    _ = r₂.providers :=
      foldlM_keeps Registry.providers enroll_providers (foldlM_enroll_of_acceptAll h₂)
    _ = r₃.providers := foldlM_keeps Registry.providers slash_providers h₃
    _ = r'.providers := foldlM_keeps Registry.providers unbond_providers h₄

/-- The providers after a packet. -/
theorem get?_providers_apply {p : Packet} {count : Nat} (h : r.apply p = .ok (count, r'))
    (id : ProviderId) :
    r'.providers.get? id = (r.providers.get? id).or (p.providers.find? (·.id = id)) := by
  obtain ⟨r₁, h₁, same⟩ := providers_apply h
  rw [← same, get?_foldlM_register h₁]

/-- The whole effect of a packet that is relayed with success, whatever was stored before. Under
every hash lies what the packet finds or admits there, in its outcome. The providers of the packet
are new, and the other ones stay. Nothing else changes. -/
theorem relay_outcome [AddressHost] {sender : String} {w : Wire.Packet} {reply : Reply}
    (h : r.perform (execute sender (.relay w)) = (.ok reply, r')) :
    ∃ p, Packet.ofWire w = .ok p ∧
      (∀ hash, r'.stakes.get? hash = (p.base r hash).map (p.outcome hash)) ∧
      (∀ hash, ¬ p.Concerns hash → r'.stakes.get? hash = r.stakes.get? hash) ∧
      (∀ q ∈ p.providers, r.providers.get? q.id = none ∧ r'.providers.get? q.id = some q) ∧
      (∀ id, (∀ q ∈ p.providers, q.id ≠ id) → r'.providers.get? id = r.providers.get? id) ∧
      r' = { r with providers := r'.providers, stakes := r'.stakes } := by
  obtain ⟨_, p, count, hp, happly, _⟩ := (perform_relay_eq_ok r).1 h
  have hstakes := get?_stakes_apply happly
  refine ⟨p, hp, hstakes, ?_, ?_, ?_, apply_sameSettings happly⟩
  · intro hash hc
    rw [hstakes, Packet.base_of_not_concerns hc]
    cases r.stakes.get? hash with
    | none => rfl
    | some s => exact congrArg some (Packet.outcome_of_not_concerns hc s)
  · intro q hq
    obtain ⟨r₁, _, _, h₁, _⟩ := apply_eq_ok.1 happly
    exact ⟨(foldlM_register_fresh h₁).2 q hq, get?_of_apply happly hq⟩
  · intro id hid
    have hnone : p.providers.find? (·.id = id) = none := by
      rw [List.find?_eq_none]
      intro q hq e
      exact hid q hq (of_decide_eq_true e)
    rw [get?_providers_apply happly, hnone, Option.or_none]

attribute [local instance] Address.Host.rules

/-- The outcome of a packet that admits a delegation twice, slashes it and unbonds it. -/
theorem relay_outcome_endingPacket :
    Sample.registry.perform (execute Sample.owner (.relay Sample.endingPacket)) =
        (.ok Sample.reply, Sample.ended) ∧
      ∃ p, Packet.ofWire Sample.endingPacket = .ok p ∧
        (∀ hash, Sample.ended.stakes.get? hash =
          (p.base Sample.registry hash).map (p.outcome hash)) := by
  obtain ⟨p, hp, hstakes, _⟩ := relay_outcome Sample.perform_endingPacket
  exact ⟨Sample.perform_endingPacket, p, hp, hstakes⟩

end Registry

end Restaking
