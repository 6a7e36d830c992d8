import Restaking.Proofs.Results
import Restaking.Staking.Packet

/-!
# Reading packets

When a message makes up a packet: every entry passes its checks, and no two registrations are of the
same provider (`ofWire_eq_ok`). A registration that passes gives a provider that passes as well
(`Provider.check_of_ofRegistration`).
-/

namespace Restaking

/-! ## Registrations -/

theorem commissionOfText_eq_ok {text : String} {rate : Decimal} :
    commissionOfText text = .ok rate ↔
      Decimal.ofText? text = some rate ∧ checkCommission rate = .ok () := by
  unfold commissionOfText
  cases Decimal.ofText? text with
  | none => simp
  | some rate' =>
    dsimp only
    rw [check_bind_eq_ok, pure_eq_ok, Except.ok.injEq, Option.some.injEq]
    constructor
    · rintro ⟨h, rfl⟩
      exact ⟨rfl, h⟩
    · rintro ⟨rfl, h⟩
      exact ⟨h, rfl⟩

theorem Registration.check_eq_ok {reg : Registration} :
    reg.check = .ok () ↔ Key.check reg.key = .ok () ∧ reg.consumer ≠ "" := by
  unfold check
  rw [check_bind_eq_ok, demand_eq_ok]

theorem Provider.check_eq_ok {q : Provider} :
    q.check = .ok () ↔
      checkCommission q.commission = .ok () ∧ Key.check q.key = .ok () ∧ q.consumer ≠ "" := by
  unfold check
  rw [check_bind_eq_ok, check_bind_eq_ok, mapError_eq_ok, demand_eq_ok]

/-- What a registration would be known by as a provider. -/
def Registration.id (reg : Registration) : ProviderId := ⟨reg.consumer, reg.key⟩

/-- The provider that a registration announces, at a commission. -/
def Registration.providerAt (reg : Registration) (rate : Decimal) : Provider where
  profile := reg.profile
  commission := rate
  chainKey := reg.chainKey
  key := reg.key
  possession := reg.possession
  consumer := reg.consumer

namespace Provider

variable {reg : Registration} {q : Provider}

theorem ofRegistration_eq_ok :
    ofRegistration reg = .ok q ↔
      reg.check = .ok () ∧ ∃ rate, commissionOfText reg.commission = .ok rate ∧
        q = reg.providerAt rate := by
  unfold ofRegistration
  rw [check_bind_eq_ok, mapError_eq_ok, bind_eq_ok]
  simp only [pure_eq_ok, Except.ok.injEq, eq_comm (b := q)]
  rfl

theorem id_of_ofRegistration (h : ofRegistration reg = .ok q) : q.id = reg.id := by
  obtain ⟨_, rate, _, rfl⟩ := ofRegistration_eq_ok.1 h
  rfl

/-- A registration that passes its checks announces a provider that does. -/
theorem check_of_ofRegistration (h : ofRegistration reg = .ok q) : q.check = .ok () := by
  obtain ⟨hreg, rate, hrate, rfl⟩ := ofRegistration_eq_ok.1 h
  exact check_eq_ok.2 ⟨(commissionOfText_eq_ok.1 hrate).2, Registration.check_eq_ok.1 hreg⟩

end Provider

namespace Packet

/-! ## Packets -/

/-- Announced providers are those that the registrations give, each once and none of those seen. -/
theorem announced_eq_ok {seen : List ProviderId} {rs : List Registration} {ps : List Provider} :
    announced seen rs = .ok ps ↔
      traverse Provider.ofRegistration rs = .ok ps ∧ (ps.map Provider.id).Nodup ∧
        ∀ p ∈ ps, p.id ∉ seen := by
  induction rs generalizing seen ps with
  | nil =>
    simp only [announced, traverse, Except.ok.injEq]
    constructor
    · rintro rfl
      simp
    · exact fun h => h.1
  | cons r rest ih =>
    rw [announced, bind_eq_ok, traverse_cons_eq_ok]
    simp only [bind_eq_ok, ih, pure_eq_ok, Except.ok.injEq]
    constructor
    · rintro ⟨p, hp, ⟨⟩, hseen, ps, ⟨hps, hnodup, hfresh⟩, rfl⟩
      rw [demand_eq_ok] at hseen
      refine ⟨⟨p, ps, hp, hps, rfl⟩, ?_, ?_⟩
      · rw [List.map_cons, List.nodup_cons]
        refine ⟨fun h => ?_, hnodup⟩
        obtain ⟨q, hq, e⟩ := List.mem_map.1 h
        exact hfresh q hq (e ▸ List.mem_cons_self)
      · intro q hq
        rcases List.mem_cons.1 hq with rfl | hq
        · exact hseen
        · exact fun h => hfresh q hq (List.mem_cons_of_mem _ h)
    · rintro ⟨⟨p, ps, hp, hps, rfl⟩, hnodup, hfresh⟩
      rw [List.map_cons, List.nodup_cons] at hnodup
      refine ⟨p, hp, (), demand_eq_ok.2 (hfresh p List.mem_cons_self), ps,
        ⟨hps, hnodup.2, ?_⟩, rfl⟩
      intro q hq h
      rcases List.mem_cons.1 h with e | h
      · exact hnodup.1 (e ▸ List.mem_map_of_mem hq)
      · exact hfresh q (List.mem_cons_of_mem _ hq) h

theorem ofWire_eq_ok {w : Wire.Packet} {p : Packet} :
    ofWire w = .ok p ↔
      (traverse Provider.ofRegistration w.registrations = .ok p.providers ∧
        (p.providers.map Provider.id).Nodup) ∧
      traverse Delegation.ofWire w.delegations = .ok p.delegations ∧
      ((∀ n ∈ w.slashings, SlashNotice.check n = .ok ()) ∧ p.slashings = w.slashings) ∧
      (∀ n ∈ w.unbondings, UnbondNotice.check n = .ok ()) ∧ p.unbondings = w.unbondings := by
  unfold ofWire
  constructor
  · intro h
    obtain ⟨ps, hps, h⟩ := bind_eq_ok.1 h
    obtain ⟨ds, hds, h⟩ := bind_eq_ok.1 h
    obtain ⟨hslashings, h⟩ := check_bind_eq_ok.1 h
    obtain ⟨hunbondings, h⟩ := check_bind_eq_ok.1 h
    obtain rfl := Except.ok.inj h
    obtain ⟨hregs, hnodup, _⟩ := announced_eq_ok.1 hps
    exact ⟨⟨hregs, hnodup⟩, hds, ⟨checkAll_eq_ok.1 (mapError_eq_ok.1 hslashings), rfl⟩,
      checkAll_eq_ok.1 (mapError_eq_ok.1 hunbondings), rfl⟩
  · rintro ⟨⟨hregs, hnodup⟩, hds, ⟨hslashings, hs⟩, hunbondings, hu⟩
    have hps : announced [] w.registrations = .ok p.providers :=
      announced_eq_ok.2 ⟨hregs, hnodup, fun _ _ => List.not_mem_nil⟩
    rw [hps, ok_bind, hds, ok_bind, checkAll_eq_ok.2 hslashings, checkAll_eq_ok.2 hunbondings,
      ← hs, ← hu]
    rfl

end Packet

end Restaking
