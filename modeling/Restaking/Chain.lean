import Restaking.Notifier.Dispatch
import Restaking.Registry.Call

/-!
# A host that runs the registry

The host remembers every call, charges what its script says, fails if the script says so, and
otherwise delivers the message to the registry, if the registry is what was called. It checks
addresses by the rules of `Address.Host`.
-/

namespace Restaking

attribute [instance] Address.Host.rules

/-- How the host treats calls. -/
structure Script where
  /-- The charges of a call, one after the other. -/
  charges : List UInt64
  /-- Whether a call goes on when it has run out of gas. -/
  ignoresLimit : Bool
  /-- The reason for which calls fail, if they do. -/
  failure : Option String
  /-- The address of the registry; without one, messages are delivered to nobody. -/
  address : Option String
  deriving DecidableEq

/-- The script that charges nothing and delivers nothing. -/
def Script.empty : Script := ⟨[], false, none, none⟩

/-- A host with a registry. -/
structure Host where
  registry : Registry
  script : Script
  /-- The calls made so far: address and message. -/
  calls : List (String × String)

namespace Host

/-- A run of a contract on the host. -/
abbrev Run := ExceptT ExecutionError (StateM (GasMeter × Host))

/-- Charges gas. -/
def charge (amount : UInt64) : Run Unit := fun (meter, host) =>
  let (result, meter) := meter.consume amount
  (result, meter, host)

/-- Charges gas, one amount after the other; unless told otherwise, the first charge that goes over
the limit ends the run. -/
def chargeAll (ignoresLimit : Bool) : List UInt64 → Run Unit
  | [] => return ()
  | amount :: rest => do
    if ignoresLimit then
      tryCatch (charge amount) fun _ => return ()
    else
      charge amount
    chargeAll ignoresLimit rest

/-- Hands a message to the registry. -/
def deliver (message : String) : Run Unit := fun (meter, host) =>
  match ofMessage? HostMessage (Utf8.encode message) with
  | none => (.error (.contract "unreadable message"), meter, host)
  | some m =>
    match host.registry.perform (Registry.notify m) with
    | (.ok _, registry) => (.ok (), meter, { host with registry })
    | (.error e, registry) => (.error (.contract (e.message?.getD "")), meter, { host with registry })

/-- Runs a contract as the script says. -/
def executor : Executor Host := fun contract message => do
  modify fun (meter, host) => (meter, { host with calls := host.calls ++ [(contract, message)] })
  let script := (← get).2.script
  chargeAll script.ignoresLimit script.charges
  if let some reason := script.failure then
    throw (.contract reason)
  if let some address := script.address then
    if address = contract then deliver message else throw (.contract "no such contract")

end Host

end Restaking
