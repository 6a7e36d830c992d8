import Restaking.Proofs.Backing
import Restaking.Proofs.Lifecycle
import Restaking.Proofs.Reading

/-!
# Registered providers

Along any run after the setting up, a provider lies under its own id, has passed its checks, and
never changes again. A packet that registers an id for a second time is refused as a whole, whether
the first time was in an earlier packet or in this one (`providers_immutable`).

1. Only a registration writes to the providers, and it writes a checked one under its own id
   (`register_registers`). So every call keeps the providers in order (`Registers`).
2. What has been registered stays, as everything that is stored does (`run_extends`).
3. If a packet is accepted, its registrations have different ids, none of which was in use
   (`ids_of_relay`). Otherwise nothing is stored.
-/

namespace Restaking.Registry

variable {r r' : Registry}

/-! ## Providers under their ids -/

/-- Every provider lies under its own id and passes its checks. -/
def Registers (r : Registry) : Prop :=
  ∀ id q, r.providers.get? id = some q → q.id = id ∧ q.check = .ok ()

theorem registers_of_empty (h : r.providers = .empty) : r.Registers := by
  intro id q hq
  rw [h, Table.get?_empty] at hq
  cases hq

theorem Registers.of_eq (h : r.Registers) (hproviders : r.providers = r'.providers) :
    r'.Registers := by
  unfold Registers
  rw [← hproviders]
  exact h

theorem register_registers {q : Provider} (h : r.register q = .ok r') (hr : r.Registers) :
    r'.Registers := by
  obtain ⟨hcheck, _, rfl⟩ := register_eq_ok.1 h
  intro id p hp
  rw [get?_putProvider] at hp
  split_ifs at hp with hid
  · obtain rfl := Option.some.inj hp
    exact ⟨hid.symm, hcheck⟩
  · exact hr id p hp

theorem apply_registers {p : Packet} {count : Nat} (h : r.apply p = .ok (count, r')) :
    r.Registers → r'.Registers :=
  apply_rel (fun r r' => r.Registers → r'.Registers) (fun _ => id) (fun h h' => h' ∘ h)
    register_registers (fun h hr => hr.of_eq (enroll_providers h))
    (fun h hr => hr.of_eq (slash_providers h)) (fun h hr => hr.of_eq (unbond_providers h)) h

section AnyHost

variable [AddressHost]

theorem Transition.registers {e : Event} (h : r.Transition e r') (hr : r.Registers) :
    r'.Registers := by
  cases h with
  | packet _ _ happly => exact apply_registers happly hr
  | none | admin | params | block => exact hr

theorem run_registers (h : r.Registers) (events : List Event) : (r.run events).Registers :=
  run_keeps Registers (fun e hr => (transition_after _ e).registers hr) h events

theorem Reachable.registers (h : r.Reachable) : r.Registers := by
  induction h with
  | setUp h => exact registers_of_empty (empty_of_setUp h).1
  | call _ e ih => exact (transition_after _ e).registers ih

/-! ## Ids that come again -/

/-- The registrations of a packet that is accepted are all new. -/
theorem ids_of_relay {sender : String} {w : Wire.Packet} {reply : Reply}
    (h : r.perform (execute sender (.relay w)) = (.ok reply, r')) :
    (w.registrations.map Registration.id).Nodup ∧
      ∀ reg ∈ w.registrations, r.providers.get? reg.id = none := by
  obtain ⟨_, p, count, hp, happly, _⟩ := (perform_relay_eq_ok r).1 h
  obtain ⟨r₁, _, _, h₁, _⟩ := apply_eq_ok.1 happly
  obtain ⟨⟨hread, _⟩, _⟩ := Packet.ofWire_eq_ok.1 hp
  have hids : p.providers.map Provider.id = w.registrations.map Registration.id :=
    map_of_traverse Provider.id_of_ofRegistration hread
  obtain ⟨hnodup, hfresh⟩ := foldlM_register_fresh h₁
  rw [hids] at hnodup
  refine ⟨hnodup, fun reg hreg => ?_⟩
  have hmem : reg.id ∈ p.providers.map Provider.id := hids ▸ List.mem_map_of_mem hreg
  obtain ⟨q, hq, hid⟩ := List.mem_map.1 hmem
  rw [← hid]
  exact hfresh q hq

/-- A packet that registers an id that is in use, or one id twice, is refused as a whole. -/
theorem relay_of_repeated {w : Wire.Packet}
    (h : (∃ reg ∈ w.registrations, r.providers.contains reg.id = true) ∨
      ¬ (w.registrations.map Registration.id).Nodup) (sender : String) :
    ∃ e, r.perform (execute sender (.relay w)) = (.error e, r) := by
  rcases perform_execute_cases r sender (.relay w) with ⟨reply, r', hok⟩ | herror
  · obtain ⟨hnodup, hfresh⟩ := ids_of_relay hok
    rcases h with ⟨reg, hreg, hused⟩ | hrepeated
    · unfold Table.contains at hused
      rw [hfresh reg hreg] at hused
      cases hused
    · exact absurd hnodup hrepeated
  · exact herror

/-- At every moment of a run after the setting up, a provider that is stored bears the id that it is
stored under and has passed its checks, and it is stored there unchanged ever after. At that moment
a packet with a registration whose id is in use, or with two registrations of one id, is refused,
and nothing is stored of it. -/
theorem providers_immutable {sender : String} {hasFunds : Bool} {setup : Setup} {reply : Reply}
    (h : empty.perform (setUp sender hasFunds setup) = (.ok reply, r)) (before : List Event) :
    (∀ id q, (id, q) ∈ (r.run before).providers.entries →
      q.consumer = id.consumer ∧ q.key = id.key ∧ q.check = .ok () ∧
        q.commission.units ≤ Decimal.unitsPerOne ∧ Key.IsCanonical q.key ∧ q.consumer ≠ "" ∧
        ∀ later, (r.run (before ++ later)).providers.get? id = some q) ∧
      ∀ sender' w, (∃ reg ∈ w.registrations, (r.run before).providers.contains reg.id = true) ∨
          ¬ (w.registrations.map Registration.id).Nodup →
        ∃ e, (r.run before).perform (execute sender' (.relay w)) = (.error e, r.run before) := by
  obtain ⟨hempty, _⟩ := empty_of_setUp h
  refine ⟨fun id q hq => ?_, fun sender' w hw => relay_of_repeated hw sender'⟩
  have hstored := Table.get?_eq_some_iff.2 hq
  obtain ⟨rfl, hcheck⟩ := run_registers (registers_of_empty hempty) before id q hstored
  obtain ⟨hcommission, hkey, hconsumer⟩ := Provider.check_eq_ok.1 hcheck
  refine ⟨rfl, rfl, hcheck, demand_eq_ok.1 hcommission, Key.isCanonical_of_check hkey, hconsumer,
    fun later => ?_⟩
  rw [run_append]
  exact (run_extends (r.run before) later).providers hstored

end AnyHost

attribute [local instance] Address.Host.rules

/-- A provider that one packet registers, and that is still there after the next one. In between its
registration is refused, and so is a packet that has another registration twice. -/
theorem providers_immutable_admitting :
    (∃ q, (Sample.registration.id, q) ∈ (Sample.registry.run Sample.admitting).providers.entries ∧
      q.check = .ok () ∧ (Sample.registry.run (Sample.admitting ++ Sample.slashing)).providers.get?
        Sample.registration.id = some q) ∧
      (∃ e, (Sample.registry.run Sample.admitting).perform
        (execute Sample.owner (.relay Sample.packet)) =
          (.error e, Sample.registry.run Sample.admitting)) ∧
      ∃ e, Sample.registry.perform (execute Sample.owner
        (.relay ⟨[Sample.registration, Sample.registration], [], [], []⟩)) =
          (.error e, Sample.registry) := by
  have hused : (Sample.registry.run Sample.admitting).providers.contains
      Sample.registration.id = true := by decide +kernel
  have hrepeated : ¬ ([Sample.registration, Sample.registration].map Registration.id).Nodup :=
    fun hnodup => (List.nodup_cons.1 hnodup).1 List.mem_cons_self
  obtain ⟨q, hq⟩ := Option.isSome_iff_exists.1 hused
  have hentry := Table.get?_eq_some_iff.1 hq
  obtain ⟨hstored, hrefused⟩ := providers_immutable Sample.perform_setUp Sample.admitting
  obtain ⟨_, hrefused'⟩ := providers_immutable Sample.perform_setUp []
  obtain ⟨_, _, hcheck, _, _, _, hkept⟩ := hstored _ q hentry
  exact ⟨⟨q, hentry, hcheck, hkept Sample.slashing⟩,
    hrefused _ _ (.inl ⟨Sample.registration, List.mem_cons_self, hused⟩),
    hrefused' _ _ (.inr hrepeated)⟩

end Restaking.Registry
