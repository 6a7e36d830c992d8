import Restaking.Proofs.Direct
import Restaking.Registry.Call

/-!
# What calls do

A call threads what the registry stores through its steps. Every command turns out to be atomic:
it is a computation without writes, whose result replaces what is stored only if there is one
(`perform_execute`).
-/

namespace Restaking.Registry

variable {α β : Type} (r : Registry)

/-! ## Steps of calls -/

theorem perform_eq (call : Call α) : r.perform call = runFrom r call := rfl

@[simp] theorem perform_pure (a : α) : r.perform (pure a) = (.ok a, r) := rfl

@[simp] theorem perform_get : r.perform get = (.ok r, r) := rfl

@[simp] theorem perform_set (r' : Registry) : r.perform (set r') = (.ok (), r') := rfl

@[simp] theorem perform_modify (f : Registry → Registry) :
    r.perform (modify f) = (.ok (), f r) := rfl

@[simp] theorem perform_attempt (x : Except RegistryError α) :
    r.perform (attempt x) = (x, r) := rfl

theorem perform_bind (x : Call α) (f : α → Call β) :
    r.perform (x >>= f) =
      match r.perform x with
      | (.ok a, r') => r'.perform (f a)
      | (.error e, r') => (.error e, r') := by
  rw [perform_eq, runFrom_bind, perform_eq]
  rcases runFrom r x with ⟨_ | _, r'⟩ <;> rfl

theorem perform_eq_of_toOption {r : Registry} {call : Call α} {a : α}
    (h : (r.perform call).1.toOption = some a) : r.perform call = (.ok a, (r.perform call).2) :=
  Prod.ext (toOption_eq_some.1 h) rfl

/-! ## Who may do what -/

/-- The sender is the admin. -/
def IsAdmin (sender : String) : Prop := r.admin = some (some sender)

/-- The sender may relay packets: it is the configured relayer, or the admin. -/
def MayRelay (sender : String) : Prop :=
  ∃ c, r.config = some c ∧ (c.relayer = sender ∨ r.IsAdmin sender)

/-- What comes of demanding that the sender is the admin. -/
def checkAdmin (sender : String) : Except RegistryError Unit :=
  match r.admin with
  | none => .error .adminNotStored
  | some admin => demand (admin = some sender) .notAdmin

/-- What comes of demanding that the sender may relay packets. -/
def checkRelayer (sender : String) : Except RegistryError Unit :=
  match r.config with
  | none => .error .notStored
  | some c =>
    if sender = c.relayer then .ok ()
    else
      match r.admin with
      | none => .error .notStored
      | some admin => demand (admin = some sender) .unauthorized

theorem perform_demandAdmin (sender : String) :
    r.perform (demandAdmin sender) = (r.checkAdmin sender, r) := by
  unfold demandAdmin checkAdmin
  rw [perform_bind, perform_get]
  dsimp only
  cases r.admin <;> rfl

theorem perform_demandRelayer (sender : String) :
    r.perform (demandRelayer sender) = (r.checkRelayer sender, r) := by
  unfold demandRelayer checkRelayer stored
  simp only [perform_bind, perform_get]
  cases r.config with
  | none => rfl
  | some c =>
    simp only [perform_pure]
    by_cases h : sender = c.relayer
    · simp [h]
    · simp only [h, ne_eq, not_false_eq_true, if_true, if_false, perform_bind, perform_get]
      cases r.admin <;> rfl

theorem checkAdmin_eq_ok {sender : String} : r.checkAdmin sender = .ok () ↔ r.IsAdmin sender := by
  unfold checkAdmin IsAdmin
  cases r.admin <;> simp

theorem checkRelayer_eq_ok {sender : String} :
    r.checkRelayer sender = .ok () ↔ r.MayRelay sender := by
  unfold checkRelayer MayRelay IsAdmin
  cases r.config with
  | none => simp
  | some c =>
    by_cases h : sender = c.relayer
    · simp [h]
    · cases r.admin <;> simp [h, Ne.symm h]

/-! ## Commands -/

/-- The reply to a packet with that many new delegations. -/
def relayReply (p : Packet) (count : Nat) : Reply where
  attributes := [("action", "btc_staking"), ("new_fps", Numeral.text p.providers.length),
    ("active_dels", Numeral.text count), ("slashed_dels", Numeral.text p.slashings.length),
    ("unbonded_dels", Numeral.text p.unbondings.length)]
  log := ["btc staking packet applied: " ++ Numeral.text p.providers.length ++ " new fps, "
    ++ Numeral.text count ++ " new delegations"]

/-- A result that replaces what is stored, if there is one. -/
def settle : Except RegistryError (α × Registry) → Except RegistryError α × Registry
  | .ok (a, r') => (.ok a, r')
  | .error e => (.error e, r)

theorem settle_eq_ok {x : Except RegistryError (α × Registry)} {a : α} {r' : Registry} :
    r.settle x = (.ok a, r') ↔ x = .ok (a, r') := by
  cases x <;> simp [settle, Prod.ext_iff]

variable [AddressHost]

/-- The reply to a command of a sender and what is stored afterwards, if the command succeeds. -/
def effect (sender : String) : Command → Except RegistryError (Reply × Registry)
  | .updateAdmin admin => do
    checkAddress admin
    r.checkAdmin sender
    return (.ofAttributes
      [("action", "update_admin"), ("admin", admin.getD "None"), ("sender", sender)],
      { r with admin := some admin })
  | .relay w => do
    r.checkRelayer sender
    let p ← (Packet.ofWire w).mapError .staking
    let (count, r') ← r.apply p
    return (relayReply p count, r')
  | .addParams params => do
    r.checkAdmin sender
    params.check
    let version ← r.nextVersion
    return (.ofAttributes
      [("action", "add_staking_params"), ("version", Numeral.text version.toNat)],
      { r with params := r.params.insert version params })

/-- Commands are atomic. -/
theorem perform_execute (sender : String) (c : Command) :
    r.perform (execute sender c) = r.settle (r.effect sender c) := by
  cases c with
  | updateAdmin admin =>
    unfold execute updateAdmin effect
    simp only [perform_bind, perform_attempt, perform_demandAdmin, perform_modify, perform_pure]
    cases checkAddress admin with
    | error e => rfl
    | ok _ =>
      simp only [ok_bind]
      cases r.checkAdmin sender <;> rfl
  | relay w =>
    unfold execute relay effect
    simp only [perform_bind, perform_attempt, perform_demandRelayer, perform_get, perform_set,
      perform_pure]
    cases r.checkRelayer sender with
    | error e => rfl
    | ok _ =>
      cases (Packet.ofWire w).mapError RegistryError.staking with
      | error e => rfl
      | ok p =>
        simp only [ok_bind, ← Draft.commit_ofPacket]
        cases Draft.ofPacket r p <;> rfl
  | addParams params =>
    unfold execute addParams effect
    simp only [perform_bind, perform_attempt, perform_demandAdmin, perform_get, perform_modify,
      perform_pure]
    cases r.checkAdmin sender with
    | error e => rfl
    | ok _ =>
      cases params.check with
      | error e => rfl
      | ok _ =>
        simp only [ok_bind]
        cases r.nextVersion <;> rfl

/-- A command succeeds, or it fails and leaves everything as it was. -/
theorem perform_execute_cases (sender : String) (c : Command) :
    (∃ reply r', r.perform (execute sender c) = (.ok reply, r')) ∨
      ∃ e, r.perform (execute sender c) = (.error e, r) := by
  rw [perform_execute]
  cases r.effect sender c with
  | error e => exact .inr ⟨e, rfl⟩
  | ok x => exact .inl ⟨x.1, x.2, rfl⟩

theorem perform_relay {sender : String} {w : Wire.Packet} {p : Packet} (hsender : r.MayRelay sender)
    (hp : Packet.ofWire w = .ok p) :
    r.perform (execute sender (.relay w)) =
      r.settle ((fun x => (relayReply p x.1, x.2)) <$> r.apply p) := by
  rw [perform_execute, effect, (checkRelayer_eq_ok r).2 hsender, hp, ok_bind, mapError_ok, ok_bind]
  cases r.apply p <;> rfl

/-- A packet takes effect if its sender may relay it, its entries pass their checks and can be
written one after the other. -/
theorem perform_relay_eq_ok {sender : String} {w : Wire.Packet} {reply : Reply} {r' : Registry} :
    r.perform (execute sender (.relay w)) = (.ok reply, r') ↔
      r.MayRelay sender ∧ ∃ p count, Packet.ofWire w = .ok p ∧ r.apply p = .ok (count, r') ∧
        relayReply p count = reply := by
  rw [perform_execute, settle_eq_ok, effect, check_bind_eq_ok, checkRelayer_eq_ok]
  refine and_congr_right fun _ => ?_
  constructor
  · intro h
    obtain ⟨p, hp, h⟩ := bind_eq_ok.1 h
    obtain ⟨⟨count, _⟩, happly, h⟩ := bind_eq_ok.1 h
    obtain ⟨rfl, rfl⟩ := Prod.mk.inj (Except.ok.inj h)
    exact ⟨p, count, mapError_eq_ok.1 hp, happly, rfl⟩
  · rintro ⟨p, count, hp, happly, rfl⟩
    rw [hp, mapError_ok, ok_bind, happly]
    rfl

/-- Parameters are added if the admin sends them, they pass their checks, and versions have not run
out. -/
theorem perform_addParams_eq_ok {sender : String} {params : StakingParams} {reply : Reply}
    {r' : Registry} :
    r.perform (execute sender (.addParams params)) = (.ok reply, r') ↔
      r.IsAdmin sender ∧ params.check = .ok () ∧ ∃ version, r.nextVersion = .ok version ∧
        .ofAttributes [("action", "add_staking_params"),
          ("version", Numeral.text version.toNat)] = reply ∧
        { r with params := r.params.insert version params } = r' := by
  rw [perform_execute, settle_eq_ok, effect, check_bind_eq_ok, checkAdmin_eq_ok, check_bind_eq_ok,
    bind_eq_ok]
  refine and_congr_right fun _ => and_congr_right fun _ => exists_congr fun version => ?_
  rw [pure_eq_ok, Except.ok.injEq, Prod.mk.injEq]

/-! ## Setting up -/

/-- Setting up succeeds if it comes without funds and with an address and parameters that pass their
checks. -/
theorem perform_setUp_eq_ok {sender : String} {hasFunds : Bool} {s : Setup} {reply : Reply}
    {r' : Registry} :
    r.perform (setUp sender hasFunds s) = (.ok reply, r') ↔
      hasFunds = false ∧ checkAddress s.admin = .ok () ∧
        (s.params.getD .empty).check = .ok () ∧
        reply = .ofAttributes [("action", "instantiate")] ∧
        r' = { r with
          config := some ⟨sender⟩
          admin := some s.admin
          params := r.params.insert 0 (s.params.getD .empty)
          info := some contractInfo } := by
  unfold setUp
  simp only [perform_bind, perform_attempt, perform_modify, perform_pure]
  cases hfunds : demand (hasFunds = false) RegistryError.notPayable with
  | error e =>
    have h : hasFunds ≠ false := fun h => by rw [demand_eq_ok.2 h] at hfunds; cases hfunds
    simp [h]
  | ok _ =>
    rw [demand_eq_ok] at hfunds
    cases checkAddress s.admin with
    | error e => simp
    | ok _ =>
      cases (s.params.getD .empty).check with
      | error e => simp
      | ok _ => simp [hfunds, Prod.ext_iff, eq_comm]

/-- There are no providers and no stakes after the setting up. -/
theorem empty_of_setUp {sender : String} {hasFunds : Bool} {s : Setup} {reply : Reply}
    {r : Registry} (h : empty.perform (setUp sender hasFunds s) = (.ok reply, r)) :
    r.providers = .empty ∧ r.stakes = .empty := by
  obtain ⟨_, _, _, _, rfl⟩ := (perform_setUp_eq_ok _).1 h
  exact ⟨rfl, rfl⟩

end Restaking.Registry
