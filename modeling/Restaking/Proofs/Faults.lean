import Restaking.Proofs.Conflicts
import Restaking.Proofs.Verdicts

/-!
# Faults in packets

A packet is read list by list, entry by entry, with the providers in mind that it has registered so
far, and the first entry that is at fault ends the reading. What comes of it can be said without the
reading (`Packet.ofWire_iff`): which packets can be read, what each of them means, and which error
the others fail with.

1. Whether all entries of a packet pass is a question without an order
   (`Packet.ofWire_eq_ok_iff_wellFormed`), and a packet all of whose entries pass can be read
   (`Wire.Packet.WellFormed.exists_ofWire`).
2. An entry is at fault for what it says, or for registering a provider that an entry before it has
   registered. So its check depends on the entries before it (`Wire.Entry.check_eq_ok`).
3. As far as errors go, reading a packet is checking the row of its entries, each in view of those
   before it (`Packet.verdict_ofWire`), and such a row fails with the error of the first entry at
   fault (`checkInOrder_eq_error`).
-/

namespace Restaking

/-! ## Well-formed entries -/

/-- The text of a transaction hash: 64 hexadecimal digits in either letter case. -/
def IsHashText (text : String) : Prop :=
  text.length = 64 ∧ ∀ c ∈ text.toList, Hex.IsDigit c.toLower

theorem checkHashText_eq_ok {text : String} : checkHashText text = .ok () ↔ IsHashText text := by
  rw [checkHashText_eq_ok_iff_decode]
  simp only [and_comm (b := _ = hashLength)]
  exact Hex.exists_decode_iff

/-- A notice of slashing with the hash and the secret key that it is about. -/
structure SlashNotice.WellFormed (n : SlashNotice) : Prop where
  stakingTx : IsHashText n.stakingTx
  recoveredKey : n.recoveredKey ≠ ""

theorem SlashNotice.check_eq_ok {n : SlashNotice} : n.check = .ok () ↔ n.WellFormed := by
  unfold check
  rw [check_bind_eq_ok, demand_eq_ok, checkHashText_eq_ok]
  exact ⟨fun ⟨htx, hkey⟩ => ⟨htx, hkey⟩, fun h => ⟨h.stakingTx, h.recoveredKey⟩⟩

/-- A notice of unbonding with the hash and the signature that it is about. -/
structure UnbondNotice.WellFormed (n : UnbondNotice) : Prop where
  stakingTx : IsHashText n.stakingTx
  signature : n.signature ≠ []

theorem UnbondNotice.check_eq_ok_iff_wellFormed {n : UnbondNotice} :
    n.check = .ok () ↔ n.WellFormed := by
  rw [check_eq_ok, checkHashText_eq_ok]
  exact ⟨fun ⟨htx, hsignature⟩ => ⟨htx, hsignature⟩, fun h => ⟨h.stakingTx, h.signature⟩⟩

namespace Registration

/-- What is asked of a registration by itself. -/
structure WellFormed (reg : Registration) : Prop where
  key : Key.IsSpelt reg.key
  consumer : reg.consumer ≠ ""
  commission : ∃ rate, commissionOfText reg.commission = .ok rate

/-- The provider is the one that the registration announces, at the commission that it spells. -/
def Announces (reg : Registration) (q : Provider) : Prop :=
  ∃ rate, commissionOfText reg.commission = .ok rate ∧ q = reg.providerAt rate

end Registration

theorem Provider.ofRegistration_eq_ok_iff_wellFormed {reg : Registration} {q : Provider} :
    ofRegistration reg = .ok q ↔ reg.WellFormed ∧ reg.Announces q := by
  rw [ofRegistration_eq_ok, Registration.check_eq_ok, Key.check_eq_ok]
  constructor
  · rintro ⟨⟨hkey, hconsumer⟩, rate, hrate, hq⟩
    exact ⟨⟨hkey, hconsumer, rate, hrate⟩, rate, hrate, hq⟩
  · rintro ⟨h, hq⟩
    exact ⟨⟨h.key, h.consumer⟩, hq⟩

theorem Provider.exists_ofRegistration_iff {reg : Registration} :
    (∃ q, ofRegistration reg = .ok q) ↔ reg.WellFormed := by
  simp only [ofRegistration_eq_ok_iff_wellFormed]
  constructor
  · rintro ⟨q, h, _⟩
    exact h
  · intro h
    obtain ⟨rate, hrate⟩ := h.commission
    exact ⟨reg.providerAt rate, h, rate, hrate, rfl⟩

namespace Wire.Delegation

/-- What is asked of a delegation that a message tells of: the part on undelegation is there, the
delegator has signed nothing in it, not even with an empty signature, and what remains is
well-formed as a delegation. -/
def WellFormed (w : Wire.Delegation) : Prop :=
  ∃ u, w.undelegation = some u ∧ u.delegatorSignature = none ∧
    Restaking.Delegation.WellFormed (w.withUndelegation u.toUndelegation)

/-- The delegation is the one that the message tells of. -/
def Tells (w : Wire.Delegation) (d : Restaking.Delegation) : Prop :=
  ∃ u, w.undelegation = some u ∧ d = w.withUndelegation u.toUndelegation

end Wire.Delegation

theorem Delegation.ofWire_eq_ok_iff_wellFormed {w : Wire.Delegation} {d : Delegation} :
    ofWire w = .ok d ↔ w.WellFormed ∧ w.Tells d := by
  unfold ofWire
  constructor
  · intro h
    split at h
    · cases h
    next u hu =>
      split at h
      · cases h
      next hsignature =>
        obtain ⟨hcheck, h⟩ := check_bind_eq_ok.1 h
        exact ⟨⟨u, hu, hsignature, check_eq_ok.1 hcheck⟩, u, hu, (Except.ok.inj h).symm⟩
  · rintro ⟨⟨u, hu, hsignature, hd⟩, u', hu', rfl⟩
    obtain rfl : u = u' := Option.some.inj (hu.symm.trans hu')
    rw [hu]
    dsimp only
    rw [hsignature]
    exact check_bind_eq_ok.2 ⟨check_eq_ok.2 hd, rfl⟩

theorem Delegation.exists_ofWire_iff {w : Wire.Delegation} :
    (∃ d, ofWire w = .ok d) ↔ w.WellFormed := by
  simp only [ofWire_eq_ok_iff_wellFormed]
  constructor
  · rintro ⟨d, h, _⟩
    exact h
  · rintro ⟨u, hu, hsignature, hd⟩
    exact ⟨w.withUndelegation u.toUndelegation, ⟨u, hu, hsignature, hd⟩, u, hu, rfl⟩

/-! ## Well-formed packets -/

namespace Wire.Packet

/-- What is asked of a packet: that its entries are well-formed, each by itself, and that no two
registrations are of the same provider. -/
structure WellFormed (w : Packet) : Prop where
  registrations : ∀ reg ∈ w.registrations, reg.WellFormed
  distinct : (w.registrations.map Registration.id).Nodup
  delegations : ∀ d ∈ w.delegations, Delegation.WellFormed d
  slashings : ∀ n ∈ w.slashings, n.WellFormed
  unbondings : ∀ n ∈ w.unbondings, n.WellFormed

/-- What a packet means, entry by entry: nothing is left out, and nothing is taken together. -/
structure Means (w : Packet) (p : Restaking.Packet) : Prop where
  providers : List.Forall₂ Registration.Announces w.registrations p.providers
  delegations : List.Forall₂ Delegation.Tells w.delegations p.delegations
  slashings : p.slashings = w.slashings
  unbondings : p.unbondings = w.unbondings

end Wire.Packet

namespace Packet

variable {w : Wire.Packet} {p : Packet}

/-- The checks of a packet in terms of its well-formedness, and what is read of it list by list. -/
theorem ofWire_eq_ok_iff_traverse :
    ofWire w = .ok p ↔ w.WellFormed ∧
      traverse Provider.ofRegistration w.registrations = .ok p.providers ∧
      traverse Delegation.ofWire w.delegations = .ok p.delegations ∧
      p.slashings = w.slashings ∧ p.unbondings = w.unbondings := by
  simp only [ofWire_eq_ok, SlashNotice.check_eq_ok, UnbondNotice.check_eq_ok_iff_wellFormed]
  constructor
  · rintro ⟨⟨hproviders, hdistinct⟩, hdelegations, ⟨hslashings, hs⟩, hunbondings, hu⟩
    rw [map_of_traverse Provider.id_of_ofRegistration hproviders] at hdistinct
    have hregistrations := (traverse_eq_ok_iff_forall₂
      Provider.ofRegistration_eq_ok_iff_wellFormed).1 hproviders
    have hactive := (traverse_eq_ok_iff_forall₂
      Delegation.ofWire_eq_ok_iff_wellFormed).1 hdelegations
    exact ⟨⟨hregistrations.1, hdistinct, hactive.1, hslashings, hunbondings⟩, hproviders,
      hdelegations, hs, hu⟩
  · rintro ⟨h, hproviders, hdelegations, hs, hu⟩
    have hdistinct : (p.providers.map Provider.id).Nodup := by
      rw [map_of_traverse Provider.id_of_ofRegistration hproviders]
      exact h.distinct
    exact ⟨⟨hproviders, hdistinct⟩, hdelegations, ⟨h.slashings, hs⟩, h.unbondings, hu⟩

theorem ofWire_eq_ok_iff_wellFormed : ofWire w = .ok p ↔ w.WellFormed ∧ w.Means p := by
  rw [ofWire_eq_ok_iff_traverse,
    traverse_eq_ok_iff_forall₂ Provider.ofRegistration_eq_ok_iff_wellFormed,
    traverse_eq_ok_iff_forall₂ Delegation.ofWire_eq_ok_iff_wellFormed]
  refine and_congr_right fun h => ⟨?_, fun hmeans => ?_⟩
  · rintro ⟨⟨_, hproviders⟩, ⟨_, hdelegations⟩, hs, hu⟩
    exact ⟨hproviders, hdelegations, hs, hu⟩
  · exact ⟨⟨h.registrations, hmeans.providers⟩, ⟨h.delegations, hmeans.delegations⟩,
      hmeans.slashings, hmeans.unbondings⟩

end Packet

/-- A packet all of whose entries pass can be read. -/
theorem Wire.Packet.WellFormed.exists_ofWire {w : Wire.Packet} (h : w.WellFormed) :
    ∃ p, Packet.ofWire w = .ok p := by
  obtain ⟨providers, hproviders⟩ := exists_traverse fun reg hreg =>
    Provider.exists_ofRegistration_iff.2 (h.registrations reg hreg)
  obtain ⟨delegations, hdelegations⟩ := exists_traverse fun d hd =>
    Delegation.exists_ofWire_iff.2 (h.delegations d hd)
  exact ⟨⟨providers, delegations, w.slashings, w.unbondings⟩,
    Packet.ofWire_eq_ok_iff_traverse.2 ⟨h, hproviders, hdelegations, rfl, rfl⟩⟩

/-! ## Entries -/

namespace Wire

/-- An entry of a packet. -/
inductive Entry where
  | registration (reg : Registration)
  | delegation (d : Delegation)
  | slashing (n : SlashNotice)
  | unbonding (n : UnbondNotice)

/-- The entries of a packet in the order in which they are read. -/
def Packet.row (w : Packet) : List Entry :=
  w.registrations.map .registration ++ w.delegations.map .delegation ++
    w.slashings.map .slashing ++ w.unbondings.map .unbonding

namespace Entry

/-- The provider that an entry registers, if it registers one. -/
def id? : Entry → Option ProviderId
  | registration reg => some reg.id
  | delegation _ | slashing _ | unbonding _ => none

/-- What is asked of an entry by itself. -/
def WellFormed : Entry → Prop
  | registration reg => reg.WellFormed
  | delegation d => Delegation.WellFormed d
  | slashing n => n.WellFormed
  | unbonding n => n.WellFormed

/-- An entry that does not pass after those before it: it is not well-formed, or it registers a
provider that one of them has registered. -/
def AtFault (before : List Entry) (entry : Entry) : Prop :=
  ¬ entry.WellFormed ∨ ∃ id, entry.id? = some id ∧ ∃ earlier ∈ before, earlier.id? = some id

/-- Checks an entry in view of those before it. -/
def check (before : List Entry) : Entry → Except StakingError Unit
  | registration reg => do
    verdict (Provider.ofRegistration reg)
    demand (reg.id ∉ before.filterMap id?) (.repeatedProvider reg.consumer reg.key)
  | delegation d => verdict (Restaking.Delegation.ofWire d)
  | slashing n => n.check.mapError .malformed
  | unbonding n => n.check.mapError .malformed

theorem check_eq_ok {before : List Entry} {entry : Entry} :
    entry.check before = .ok () ↔ ¬ entry.AtFault before := by
  unfold AtFault
  rw [not_or, not_not]
  cases entry with
  | registration reg =>
    rw [check, check_bind_eq_ok, demand_eq_ok, verdict_eq_ok, Provider.exists_ofRegistration_iff,
      List.mem_filterMap]
    simp [WellFormed, id?]
  | delegation d =>
    rw [check, verdict_eq_ok, Restaking.Delegation.exists_ofWire_iff]
    simp [WellFormed, id?]
  | slashing n =>
    rw [check, mapError_eq_ok, SlashNotice.check_eq_ok]
    simp [WellFormed, id?]
  | unbonding n =>
    rw [check, mapError_eq_ok, UnbondNotice.check_eq_ok_iff_wellFormed]
    simp [WellFormed, id?]

end Entry

/-- The entry is the first of a packet that is at fault. -/
structure Packet.FirstFault (w : Packet) (before : List Entry) (entry : Entry) : Prop where
  position : ∃ after, w.row = before ++ entry :: after
  passed : ∀ earlier x later, before = earlier ++ x :: later → ¬ x.AtFault earlier
  fault : entry.AtFault before

end Wire

/-! ## Reading as a row of checks -/

namespace Packet

open Wire (Entry)

/-- Registrations are read with the providers in mind that the entries before them register. -/
theorem verdict_announced {seen : List ProviderId} {before : List Entry}
    (hseen : ∀ id, id ∈ seen ↔ id ∈ before.filterMap Entry.id?) (regs : List Registration) :
    verdict (announced seen regs) =
      checkInOrder Entry.check before (regs.map Entry.registration) := by
  induction regs generalizing seen before with
  | nil => rfl
  | cons reg rest ih =>
    rw [announced, List.map_cons, checkInOrder, Entry.check]
    cases hq : Provider.ofRegistration reg with
    | error e => rfl
    | ok q =>
      obtain ⟨_, rate, _, rfl⟩ := Provider.ofRegistration_eq_ok.1 hq
      have hrepeated : demand ((reg.providerAt rate).id ∉ seen) (StakingError.repeatedProvider
            (reg.providerAt rate).consumer (reg.providerAt rate).key) =
          demand (reg.id ∉ before.filterMap Entry.id?) (.repeatedProvider reg.consumer reg.key) :=
        demand_congr (not_congr (hseen reg.id)) _
      have hnext : ∀ id, id ∈ (reg.providerAt rate).id :: seen ↔
          id ∈ (before ++ [Entry.registration reg]).filterMap Entry.id? := by
        intro id
        rw [List.filterMap_append, List.mem_append, ← hseen, List.mem_cons, or_comm]
        exact or_congr_right List.mem_singleton.symm
      rw [ok_bind, verdict_ok, ok_bind, hrepeated, verdict_check_bind, verdict_bind_pure, ih hnext]

/-- As far as errors go, reading a packet is checking the row of its entries. -/
theorem verdict_ofWire (w : Wire.Packet) :
    verdict (ofWire w) = checkInOrder Entry.check [] w.row := by
  have hregistrations : checkInOrder Entry.check [] (w.registrations.map Entry.registration) =
      verdict (announced [] w.registrations) :=
    (verdict_announced (fun _ => Iff.rfl) w.registrations).symm
  have hdelegations (before : List Entry) :
      checkInOrder Entry.check before (w.delegations.map Entry.delegation) =
        verdict (traverse Delegation.ofWire w.delegations) := by
    rw [verdict_traverse]
    exact checkInOrder_map (g := Entry.delegation) (by intros; rfl) before w.delegations
  have hslashings (before : List Entry) :
      checkInOrder Entry.check before (w.slashings.map Entry.slashing) =
        (checkAll SlashNotice.check w.slashings).mapError .malformed := by
    rw [mapError_checkAll]
    exact checkInOrder_map (g := Entry.slashing) (by intros; rfl) before w.slashings
  have hunbondings (before : List Entry) :
      checkInOrder Entry.check before (w.unbondings.map Entry.unbonding) =
        (checkAll UnbondNotice.check w.unbondings).mapError .malformed := by
    rw [mapError_checkAll]
    exact checkInOrder_map (g := Entry.unbonding) (by intros; rfl) before w.unbondings
  unfold Wire.Packet.row
  rw [checkInOrder_append, checkInOrder_append, checkInOrder_append, hregistrations, hdelegations,
    hslashings, hunbondings, bind_assoc, bind_assoc]
  refine verdict_bind fun _ => verdict_bind fun _ => ?_
  rw [verdict_check_bind, verdict_check_bind]
  exact congrArg _ (funext fun _ => bind_ok _)

/-- Which packets can be read, what they mean, and why the others cannot be read. A packet can be
read if and only if it is well-formed. What is read tells what the packet says, entry by entry. And
a packet that cannot be read fails with the error of the first entry that is at fault. -/
theorem ofWire_iff (w : Wire.Packet) :
    ((∃ p, ofWire w = .ok p) ↔ w.WellFormed) ∧
      (∀ p, ofWire w = .ok p ↔ w.WellFormed ∧ w.Means p) ∧
      ∀ e, ofWire w = .error e ↔
        ∃ before entry, w.FirstFault before entry ∧ entry.check before = .error e := by
  refine ⟨⟨fun ⟨p, hp⟩ => (ofWire_eq_ok_iff_wellFormed.1 hp).1, fun h => h.exists_ofWire⟩,
    fun p => ofWire_eq_ok_iff_wellFormed, fun e => ?_⟩
  rw [← verdict_eq_error, verdict_ofWire, checkInOrder_eq_error]
  constructor
  · rintro ⟨before, entry, after, hrow, hbefore, he⟩
    refine ⟨before, entry, ⟨⟨after, hrow⟩, fun earlier x later h => ?_, ?_⟩, he⟩
    · exact Wire.Entry.check_eq_ok.1 (checkInOrder_eq_ok.1 hbefore earlier x later h)
    · by_contra hpasses
      rw [← Wire.Entry.check_eq_ok] at hpasses
      exact nomatch he.symm.trans hpasses
  · rintro ⟨before, entry, hfirst, he⟩
    obtain ⟨after, hrow⟩ := hfirst.position
    refine ⟨before, entry, after, hrow, checkInOrder_eq_ok.2 fun earlier x later h => ?_, he⟩
    exact Wire.Entry.check_eq_ok.2 (hfirst.passed earlier x later h)

/-- Both registrations are well-formed, so the second of them is at fault before the notice is. -/
example : ofWire ⟨[Sample.registration, Sample.registration], [], [⟨"", ""⟩], []⟩ =
    .error (.repeatedProvider Sample.registration.consumer Sample.registration.key) := by
  decide +kernel

end Packet

end Restaking
