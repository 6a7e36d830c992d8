import Restaking.Proofs.Entries
import Restaking.Proofs.Runs

/-!
# What is stored stays stored

Along any run parameters and providers stay as they are, and a stake stays as it is or comes to its
end (`Extends`). The relation is a preorder, so it is enough to look at one write at a time:

1. the writes of a packet's entries (`register_extends` and so on), and from them a packet
   (`apply_extends`);
2. the other transitions, where new parameters go to a version that is not in use;
3. a run, call by call (`run_extends`).

What a packet does not touch at all stays the same (`SameSettings`), and no call changes the
configuration (`run_config`).
-/

namespace Restaking.Registry

variable {r r' r'' : Registry}

/-! ## Packets, entry by entry -/

theorem apply_eq_ok {p : Packet} {count : Nat} :
    r.apply p = .ok (count, r') ↔ ∃ r₁ r₂ r₃, p.providers.foldlM register r = .ok r₁ ∧
      r₁.acceptAll p.delegations = .ok (count, r₂) ∧ p.slashings.foldlM slash r₂ = .ok r₃ ∧
      p.unbondings.foldlM unbond r₃ = .ok r' := by
  unfold apply
  constructor
  · intro h
    obtain ⟨r₁, h₁, h⟩ := bind_eq_ok.1 h
    obtain ⟨⟨count', r₂⟩, h₂, h⟩ := bind_eq_ok.1 h
    obtain ⟨r₃, h₃, h⟩ := bind_eq_ok.1 h
    obtain ⟨r₄, h₄, h⟩ := bind_eq_ok.1 h
    obtain ⟨rfl, rfl⟩ := Prod.mk.inj (Except.ok.inj h)
    exact ⟨r₁, r₂, r₃, h₁, h₂, h₃, h₄⟩
  · rintro ⟨r₁, r₂, r₃, h₁, h₂, h₃, h₄⟩
    simp only [h₁, h₂, h₃, h₄, ok_bind, pure_eq_ok]

/-- Admitting delegations without counting them. -/
theorem map_snd_acceptAll (ds : List Delegation) :
    Prod.snd <$> r.acceptAll ds = ds.foldlM enroll r := by
  induction ds generalizing r with
  | nil => rfl
  | cons d rest ih =>
    rw [acceptAll, List.foldlM_cons, enroll]
    cases r.accept d with
    | error e => rfl
    | ok x =>
      simp only [ok_bind, map_ok, ← ih]
      cases x.2.acceptAll rest <;> rfl

theorem foldlM_enroll_of_acceptAll {ds : List Delegation} {count : Nat}
    (h : r.acceptAll ds = .ok (count, r')) : ds.foldlM enroll r = .ok r' := by
  rw [← map_snd_acceptAll, h, map_ok]

/-- A preorder that every entry respects relates what is stored before a packet and after it. -/
theorem apply_rel (rel : Registry → Registry → Prop) (hrefl : ∀ r, rel r r)
    (htrans : ∀ {r s t}, rel r s → rel s t → rel r t)
    (hregister : ∀ {r p r'}, register r p = .ok r' → rel r r')
    (henroll : ∀ {r d r'}, enroll r d = .ok r' → rel r r')
    (hslash : ∀ {r n r'}, slash r n = .ok r' → rel r r')
    (hunbond : ∀ {r n r'}, unbond r n = .ok r' → rel r r')
    {p : Packet} {count : Nat} (h : r.apply p = .ok (count, r')) : rel r r' := by
  obtain ⟨r₁, r₂, r₃, h₁, h₂, h₃, h₄⟩ := apply_eq_ok.1 h
  exact htrans (foldlM_rel rel hrefl htrans hregister h₁)
    (htrans (foldlM_rel rel hrefl htrans henroll (foldlM_enroll_of_acceptAll h₂))
      (htrans (foldlM_rel rel hrefl htrans hslash h₃) (foldlM_rel rel hrefl htrans hunbond h₄)))

/-! ## The relation -/

/-- What `r` stores is still there in `r'`, with no other change than that stakes may have come to
their end. -/
structure Extends (r r' : Registry) : Prop where
  params : ∀ {version params}, r.params.get? version = some params →
    r'.params.get? version = some params
  providers : ∀ {id p}, r.providers.get? id = some p → r'.providers.get? id = some p
  stakes : ∀ {hash s}, r.stakes.get? hash = some s →
    ∃ s', r'.stakes.get? hash = some s' ∧ s.Becomes s'

namespace Extends

theorem refl (r : Registry) : r.Extends r := ⟨id, id, fun h => ⟨_, h, .same⟩⟩

theorem trans (h : r.Extends r') (h' : r'.Extends r'') : r.Extends r'' where
  params hp := h'.params (h.params hp)
  providers hp := h'.providers (h.providers hp)
  stakes hs := by
    obtain ⟨s', hs', hb⟩ := h.stakes hs
    obtain ⟨s'', hs'', hb'⟩ := h'.stakes hs'
    exact ⟨s'', hs'', hb.trans hb'⟩

theorem putProvider {p : Provider} (h : r.providers.get? p.id = none) :
    r.Extends (r.putProvider p) where
  params := id
  providers {id q} hq := by
    rw [get?_putProvider]
    split_ifs with e
    · rw [e, h] at hq
      cases hq
    · exact hq
  stakes hs := ⟨_, hs, .same⟩

theorem putStake {hash : TxHash} {s : Stake}
    (h : ∀ old, r.stakes.get? hash = some old → old.Becomes s) :
    r.Extends (r.putStake hash s) where
  params := id
  providers := id
  stakes {j old} hold := by
    rw [get?_putStake]
    split_ifs with e
    · exact ⟨s, rfl, h old (e ▸ hold)⟩
    · exact ⟨old, hold, .same⟩

end Extends

section Folds

variable {α : Type} {step : Registry → α → Except RegistryError Registry}
  (hstep : ∀ {r a r'}, step r a = .ok r' → r.Extends r')

include hstep

theorem foldlM_extends {l : List α} (h : l.foldlM step r = .ok r') : r.Extends r' :=
  foldlM_rel Extends Extends.refl Extends.trans hstep h

/-- What a step leaves behind for its entry is there after all steps, if extensions keep it. -/
theorem foldlM_leaves (trace : α → Registry → Prop)
    (hleave : ∀ {r a r'}, step r a = .ok r' → trace a r')
    (hkeep : ∀ {a r r'}, r.Extends r' → trace a r → trace a r') {l : List α}
    (h : l.foldlM step r = .ok r') : ∀ a ∈ l, trace a r' :=
  foldlM_traces Extends Extends.refl Extends.trans hstep trace hleave hkeep h

end Folds

/-! ## Entries and packets -/

theorem register_extends {p : Provider} (h : r.register p = .ok r') : r.Extends r' := by
  obtain ⟨_, hnew, rfl⟩ := register_eq_ok.1 h
  exact .putProvider hnew

theorem get?_of_register {p : Provider} (h : r.register p = .ok r') :
    r'.providers.get? p.id = some p := by
  obtain ⟨_, _, rfl⟩ := register_eq_ok.1 h
  rw [get?_putProvider, if_pos rfl]

/-- Providers that are registered one after the other differ from each other, and none of them was
registered before. -/
theorem foldlM_register_fresh {ps : List Provider} (h : ps.foldlM register r = .ok r') :
    (ps.map Provider.id).Nodup ∧ ∀ p ∈ ps, r.providers.get? p.id = none := by
  induction ps generalizing r with
  | nil => simp
  | cons p rest ih =>
    obtain ⟨s, hp, hrest⟩ := foldlM_cons_eq_ok.1 h
    obtain ⟨hnodup, hfresh⟩ := ih hrest
    constructor
    · rw [List.map_cons, List.nodup_cons]
      refine ⟨fun hmem => ?_, hnodup⟩
      -- a second provider with the id of the first would find it registered
      obtain ⟨q, hq, e⟩ := List.mem_map.1 hmem
      have hsome := get?_of_register hp
      rw [← e, hfresh q hq] at hsome
      cases hsome
    · intro q hq
      rcases List.mem_cons.1 hq with rfl | hq
      · exact (register_eq_ok.1 hp).2.1
      · -- what is registered before the first provider is registered after it
        rw [Option.eq_none_iff_forall_ne_some]
        intro old hold
        have hkept := (register_extends hp).providers hold
        rw [hfresh q hq] at hkept
        cases hkept

theorem enroll_extends {d : Delegation} (h : r.enroll d = .ok r') : r.Extends r' := by
  rcases enroll_eq_ok.1 h with ⟨s, _, _, rfl⟩ | ⟨hnew, s, _, rfl⟩
  · exact .refl r'
  · refine .putStake fun old hold => ?_
    rw [hnew] at hold
    cases hold

theorem slash_extends {n : SlashNotice} (h : r.slash n = .ok r') : r.Extends r' := by
  obtain ⟨hash, s, _, hs, rfl⟩ := slash_eq_ok.1 h
  refine .putStake fun old hold => ?_
  obtain rfl := Option.some.inj (hs.symm.trans hold)
  exact s.becomes_slash

theorem unbond_extends {n : UnbondNotice} (h : r.unbond n = .ok r') : r.Extends r' := by
  obtain ⟨hash, s, _, hs, _, rfl⟩ := unbond_eq_ok.1 h
  refine .putStake fun old hold => ?_
  obtain rfl := Option.some.inj (hs.symm.trans hold)
  exact s.becomes_unbond

theorem apply_extends {p : Packet} {count : Nat} (h : r.apply p = .ok (count, r')) :
    r.Extends r' :=
  apply_rel Extends Extends.refl Extends.trans register_extends enroll_extends slash_extends
    unbond_extends h

/-- The providers of a packet are registered afterwards. -/
theorem get?_of_apply {p : Packet} {count : Nat} (h : r.apply p = .ok (count, r')) {q : Provider}
    (hq : q ∈ p.providers) : r'.providers.get? q.id = some q := by
  obtain ⟨r₁, r₂, r₃, h₁, h₂, h₃, h₄⟩ := apply_eq_ok.1 h
  have hregistered : r₁.providers.get? q.id = some q :=
    foldlM_leaves register_extends (fun q r => r.providers.get? q.id = some q) get?_of_register
      (fun hr => hr.providers) h₁ q hq
  have hrest : r₁.apply { p with providers := [] } = .ok (count, r') :=
    apply_eq_ok.2 ⟨r₁, r₂, r₃, rfl, h₂, h₃, h₄⟩
  exact (apply_extends hrest).providers hregistered

/-- Two registries differ in their providers and stakes only. -/
def SameSettings (r r' : Registry) : Prop :=
  r' = { r with providers := r'.providers, stakes := r'.stakes }

theorem SameSettings.symm (h : r.SameSettings r') : r'.SameSettings r := by
  unfold SameSettings at h ⊢
  rw [h]

theorem SameSettings.trans {s t : Registry} (hs : r.SameSettings s) (ht : s.SameSettings t) :
    r.SameSettings t := by
  unfold SameSettings at *
  rw [ht, hs]

theorem SameSettings.config_eq (h : r.SameSettings r') : r'.config = r.config := by
  unfold SameSettings at h
  rw [h]

theorem SameSettings.admin_eq (h : r.SameSettings r') : r'.admin = r.admin := by
  unfold SameSettings at h
  rw [h]

theorem SameSettings.params_eq (h : r.SameSettings r') : r'.params = r.params := by
  unfold SameSettings at h
  rw [h]

theorem SameSettings.mayRelay {sender : String} (h : r.SameSettings r')
    (hsender : r.MayRelay sender) : r'.MayRelay sender := by
  unfold MayRelay IsAdmin at *
  rw [h.config_eq, h.admin_eq]
  exact hsender

theorem apply_sameSettings {p : Packet} {count : Nat} (h : r.apply p = .ok (count, r')) :
    r.SameSettings r' := by
  refine apply_rel SameSettings (fun _ => rfl) SameSettings.trans ?_ ?_ ?_ ?_ h
  · intro r p r' h
    obtain ⟨_, _, rfl⟩ := register_eq_ok.1 h
    rfl
  · intro r d r' h
    rcases enroll_eq_ok.1 h with ⟨s, _, _, rfl⟩ | ⟨_, s, _, rfl⟩ <;> rfl
  · intro r n r' h
    obtain ⟨hash, s, _, _, rfl⟩ := slash_eq_ok.1 h
    rfl
  · intro r n r' h
    obtain ⟨hash, s, _, _, _, rfl⟩ := unbond_eq_ok.1 h
    rfl

/-! ## Calls and runs -/

/-- The version that new parameters get is not in use. -/
theorem get?_nextVersion {version : UInt32} (h : r.nextVersion = .ok version) :
    r.params.get? version = none := by
  unfold nextVersion at h
  cases hl : r.params.last? with
  | none =>
    have hnil : r.params.entries = [] := List.getLast?_eq_none_iff.1 hl
    unfold Table.get?
    rw [hnil]
    rfl
  | some e =>
    obtain ⟨last, params⟩ := e
    simp only [hl] at h
    split_ifs at h with hlt
    obtain rfl := Except.ok.inj h
    rw [Option.eq_none_iff_forall_ne_some]
    intro params' hp
    -- the new version lies above the last one, since the sum does not wrap around
    have hnext : (last + 1).toNat = last.toNat + 1 := by
      rw [UInt32.toNat_add]
      exact Nat.mod_eq_of_lt hlt
    rcases Table.le_last hl hp with hlt' | heq
    · have := UInt32.lt_iff_toNat_lt.1 (compareOfLessAndEq_eq_lt.1 hlt')
      omega
    · have := congrArg UInt32.toNat heq
      omega

variable [AddressHost]

theorem Transition.extends {e : Event} (h : r.Transition e r') : r.Extends r' := by
  cases h with
  | none => exact .refl r
  | admin => exact ⟨id, id, fun hs => ⟨_, hs, .same⟩⟩
  | block => exact ⟨id, id, fun hs => ⟨_, hs, .same⟩⟩
  | packet _ _ happly => exact apply_extends happly
  | params _ _ hversion =>
    refine ⟨fun {v old} hold => ?_, id, fun hs => ⟨_, hs, .same⟩⟩
    rw [Table.get?_insert]
    split_ifs with e
    · rw [e, get?_nextVersion hversion] at hold
      cases hold
    · exact hold

theorem after_extends (r : Registry) (e : Event) : r.Extends (r.after e) :=
  (transition_after r e).extends

/-- What is stored stays stored along every run. -/
theorem run_extends (r : Registry) (events : List Event) : r.Extends (r.run events) :=
  run_keeps r.Extends (fun e h => h.trans (after_extends _ e)) (.refl r) events

/-! ## The relayer -/

/-- The configuration stays as it is. -/
theorem Transition.config_eq {e : Event} (h : r.Transition e r') : r'.config = r.config := by
  cases h with
  | packet _ _ happly => exact (apply_sameSettings happly).config_eq
  | none | admin | params | block => rfl

theorem run_config (r : Registry) (events : List Event) : (r.run events).config = r.config :=
  run_keeps (fun r' => r'.config = r.config) (fun e h => (transition_after _ e).config_eq.trans h)
    rfl events

/-- Who has been configured to relay may always relay. -/
theorem mayRelay_run {c : Config} (h : r.config = some c) (events : List Event) :
    (r.run events).MayRelay c.relayer :=
  ⟨c, (run_config r events).trans h, .inl rfl⟩

end Restaking.Registry
