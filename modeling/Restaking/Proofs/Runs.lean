import Restaking.Proofs.Calls

/-!
# Runs

Runs are calls made one after the other, and the reachable registries are those that come from
setting up the empty registry and then making calls. A call makes one of few transitions
(`transition_after`), and whatever all of them keep is kept along every run (`run_keeps`).

All of this is for any host, whatever addresses it accepts. The last section sets up a small
registry on a host with the rules of `Address.Host`, on which theorems with hypotheses are tried
out.
-/

namespace Restaking

namespace Registry

variable [AddressHost] (r : Registry)

/-! ## Events -/

/-- A call to a registry that has been set up. -/
inductive Event where
  | execute (sender : String) (command : Command)
  | notify (message : HostMessage)
  | migrate (message : Migration)

/-- The call that an event makes. -/
def Event.call : Event → Call Reply
  | .execute sender command => Registry.execute sender command
  | .notify message => Registry.notify message
  | .migrate message => Registry.migrate message

/-- What is stored after a call, whether it succeeds or fails. -/
def after (e : Event) : Registry := (r.perform e.call).2

/-- What is stored after calls that are made one after the other. -/
def run (events : List Event) : Registry := events.foldl after r

/-- What every call keeps is kept along every run. -/
theorem run_keeps (holds : Registry → Prop) (hcall : ∀ {r} e, holds r → holds (r.after e))
    {r : Registry} (h : holds r) (events : List Event) : holds (r.run events) := by
  induction events generalizing r with
  | nil => exact h
  | cons e rest ih => exact ih (hcall e h)

/-- The registries that come from setting up the empty one once and then making any calls. -/
inductive Reachable : Registry → Prop
  | setUp {sender : String} {hasFunds : Bool} {s : Setup} {reply : Reply} {r : Registry}
      (h : empty.perform (setUp sender hasFunds s) = (.ok reply, r)) : Reachable r
  | call {r : Registry} (h : Reachable r) (e : Event) : Reachable (r.after e)

theorem Reachable.run {r : Registry} (h : Reachable r) (events : List Event) :
    Reachable (r.run events) :=
  run_keeps Reachable (fun e h => h.call e) h events

/-! ## Transitions -/

/-- What a call can do to what is stored, and under which conditions. -/
inductive Transition : Event → Registry → Prop
  /-- Nothing changes, as when a call fails. -/
  | none {e : Event} : Transition e r
  | admin {sender : String} {admin : Option String} (hsender : r.IsAdmin sender)
      (hadmin : checkAddress admin = .ok ()) :
      Transition (.execute sender (.updateAdmin admin)) { r with admin := some admin }
  | packet {sender : String} {w : Wire.Packet} {p : Packet} {count : Nat} {r' : Registry}
      (hsender : r.MayRelay sender) (hp : Packet.ofWire w = .ok p)
      (happly : r.apply p = .ok (count, r')) : Transition (.execute sender (.relay w)) r'
  | params {sender : String} {params : StakingParams} {version : UInt32}
      (hsender : r.IsAdmin sender) (hparams : params.check = .ok ())
      (hversion : r.nextVersion = .ok version) :
      Transition (.execute sender (.addParams params))
        { r with params := r.params.insert version params }
  | block {block : BlockNotice} :
      Transition (.notify (.beginBlock block)) { r with lastBlock := some block }

theorem transition_effect {sender : String} {c : Command} {reply : Reply} {r' : Registry}
    (h : r.effect sender c = .ok (reply, r')) : r.Transition (.execute sender c) r' := by
  cases c with
  | updateAdmin admin =>
    obtain ⟨hadmin, h⟩ := check_bind_eq_ok.1 h
    obtain ⟨hsender, h⟩ := check_bind_eq_ok.1 h
    obtain ⟨_, rfl⟩ := Prod.mk.inj (Except.ok.inj h)
    exact .admin ((checkAdmin_eq_ok r).1 hsender) hadmin
  | relay w =>
    obtain ⟨hsender, h⟩ := check_bind_eq_ok.1 h
    obtain ⟨p, hp, h⟩ := bind_eq_ok.1 h
    obtain ⟨⟨count, _⟩, happly, h⟩ := bind_eq_ok.1 h
    obtain ⟨_, rfl⟩ := Prod.mk.inj (Except.ok.inj h)
    exact .packet ((checkRelayer_eq_ok r).1 hsender) (mapError_eq_ok.1 hp) happly
  | addParams params =>
    obtain ⟨hsender, h⟩ := check_bind_eq_ok.1 h
    obtain ⟨hparams, h⟩ := check_bind_eq_ok.1 h
    obtain ⟨version, hversion, h⟩ := bind_eq_ok.1 h
    obtain ⟨_, rfl⟩ := Prod.mk.inj (Except.ok.inj h)
    exact .params ((checkAdmin_eq_ok r).1 hsender) hparams hversion

/-- Every call makes one of these transitions. -/
theorem transition_after (e : Event) : r.Transition e (r.after e) := by
  unfold after Event.call
  cases e with
  | execute sender c =>
    dsimp only
    rw [perform_execute]
    cases h : r.effect sender c with
    | error e => exact .none
    | ok x => exact transition_effect r h
  | notify m => exact .block
  | migrate m => exact .none

end Registry

/-! ## A small registry -/

namespace Sample

attribute [local instance] Address.Host.rules

/-- A key whose bytes are all the same. -/
def key (byte : UInt8) : String := Hex.encode (List.replicate 32 byte)

/-- The address of the relayer, who is the admin as well. -/
def owner : String := "cosmwasm1qqqqqqqqqqqqqqqqqqqqqqqqqqqqqqqqp9c9dh"

/-- What the registry is set up with. -/
def setup : Setup where
  params := some ⟨[key 1, key 2], 1⟩
  admin := some owner

def registration : Registration where
  profile := none
  commission := "0.05"
  chainKey := none
  key := key 3
  possession := none
  consumer := "osmosis-1"

def delegation : Wire.Delegation where
  delegator := key 4
  providers := [key 3]
  startHeight := 1
  endHeight := 1000
  totalSat := 10000
  stakingTx := [1]
  slashingTx := [2]
  slashingSignature := [3]
  memberSignatures := [⟨key 2, [[4]]⟩]
  outputIndex := 0
  unbondingTime := 101
  undelegation := some {
    unbondingTx := [5]
    memberSignatures := []
    slashingTx := [6]
    slashingSignature := [7]
    memberSlashingSignatures := []
    delegatorSignature := none }
  paramsVersion := 0

/-- The delegation once it has been admitted. -/
def admitted : Delegation := delegation.withUndelegation ⟨[5], [], [6], [7], []⟩

/-- The hash of the staking transaction, once in lowercase and once in uppercase. -/
def lowercaseHash : String := "705f425bfcb81942ec8db27abc2485c1322177233dac87d78445c704dccf129c"
def uppercaseHash : String := "705F425BFCB81942EC8DB27ABC2485C1322177233DAC87D78445C704DCCF129C"

/-- A packet that registers a provider and admits a delegation. -/
def packet : Wire.Packet where
  registrations := [registration]
  delegations := [delegation]
  slashings := []
  unbondings := []

/-- A packet that also admits the delegation a second time, slashes it and unbonds it. -/
def endingPacket : Wire.Packet where
  registrations := [registration]
  delegations := [delegation, delegation]
  slashings := [⟨uppercaseHash, "01"⟩]
  unbondings := [⟨lowercaseHash, [8]⟩]

/-- A packet all of whose entries are accepted, except for the last one. -/
def failingPacket : Wire.Packet :=
  { endingPacket with unbondings := [⟨lowercaseHash, [8]⟩, ⟨key 9, [8]⟩] }

/-- The registry after it has been set up. -/
def registry : Registry :=
  { Registry.empty with
    config := some ⟨owner⟩
    admin := some (some owner)
    params := Table.empty.insert 0 ⟨[key 1, key 2], 1⟩
    info := some Registry.contractInfo }

theorem perform_setUp : Registry.empty.perform (Registry.setUp owner false setup) =
    (.ok (Reply.ofAttributes [("action", "instantiate")]), registry) := by
  have haddress : Registry.checkAddress setup.admin = .ok () :=
    toOption_eq_some.1 (by decide +kernel)
  have hparams : (setup.params.getD .empty).check = .ok () :=
    toOption_eq_some.1 (by decide +kernel)
  exact (Registry.perform_setUp_eq_ok _).2 ⟨rfl, haddress, hparams, rfl, rfl⟩

theorem reachable : registry.Reachable := .setUp perform_setUp

/-- The registry after the packet. -/
def relayed : Registry := registry.after (.execute owner (.relay packet))

theorem reachable_relayed : relayed.Reachable := reachable.call _

/-- The registry after the other packet. -/
def ended : Registry := registry.after (.execute owner (.relay endingPacket))

/-- The reply to the other packet: the delegation is counted once. -/
def reply : Reply where
  attributes := [("action", "btc_staking"), ("new_fps", "1"), ("active_dels", "1"),
    ("slashed_dels", "1"), ("unbonded_dels", "1")]
  log := ["btc staking packet applied: 1 new fps, 1 new delegations"]

theorem perform_endingPacket :
    registry.perform (Registry.execute owner (.relay endingPacket)) =
      (.ok reply, ended) :=
  Registry.perform_eq_of_toOption (by decide +kernel)

/-- Calls that replace the committee and move to a new version of the contract. -/
def later : List Registry.Event := [.execute owner (.addParams ⟨[key 5], 1⟩), .migrate ⟨⟩]

/-- A call that admits the delegation. -/
def admitting : List Registry.Event := [.execute owner (.relay packet)]

/-- A call that slashes the delegation. -/
def slashing : List Registry.Event :=
  [.execute owner (.relay ⟨[], [], [⟨uppercaseHash, "01"⟩], []⟩)]

end Sample

/-! ## Commands that fail -/

namespace Registry

/-- A command that fails leaves everything as it was, whatever is stored, whoever sends it, and
however far it has come. -/
theorem execute_atomic [AddressHost] {r : Registry} {sender : String} {c : Command}
    {e : RegistryError}
    (h : (r.perform (execute sender c)).1 = .error e) :
    (r.perform (execute sender c)).2 = r := by
  rw [perform_execute] at h ⊢
  cases hx : r.effect sender c with
  | error e => rfl
  | ok x =>
    rw [hx] at h
    cases h

attribute [local instance] Address.Host.rules

/-- A packet whose last entry fails, after its provider and its delegation have been accepted. -/
theorem execute_atomic_failingPacket :
    (Sample.registry.perform (execute Sample.owner (.relay Sample.failingPacket))).1 =
        .error (.delegationNotFound (Sample.key 9)) ∧
      (Sample.registry.perform (execute Sample.owner (.relay Sample.failingPacket))).2 =
        Sample.registry := by
  have h : (Sample.registry.perform (execute Sample.owner (.relay Sample.failingPacket))).1 =
      .error (.delegationNotFound (Sample.key 9)) := by decide +kernel
  exact ⟨h, execute_atomic h⟩

end Registry

end Restaking
