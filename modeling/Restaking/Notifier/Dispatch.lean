import Restaking.Block
import Restaking.Notifier.Params

/-!
# Telling a contract about blocks

When a block begins, the notifier tells one contract about it, under a gas limit and at most once
per height. How a contract is executed is the host's business: an `Executor` is any function that
takes the contract's address and the message, may charge gas, and may change a state of its own.
-/

namespace Restaking

/-- Runs a contract on a message, given as text. Gas is charged to the meter. -/
abbrev Executor (σ : Type) :=
  (contract message : String) → ExceptT ExecutionError (StateM (GasMeter × σ)) Unit

/-- What the notifier is configured with. -/
structure Notifier where
  /-- The address that may change the parameters. -/
  authority : String
  /-- The human-readable part of the chain's addresses. -/
  hrp : String
  /-- The address of the unset account. -/
  unset : String
  deriving DecidableEq

namespace Notifier

/-- A notifier for a chain, if the human-readable part is valid. -/
def new (authority hrp : String) : Except NotifierError Notifier := do
  let unset ← unsetAddress hrp
  return { authority, hrp, unset }

/-- What the notifier stores. -/
structure Store where
  params : Option Params
  /-- The height of the last block that the contract was told about. -/
  lastHeight : Option Int64
  deriving DecidableEq

/-- The store before anything is stored. -/
def Store.empty : Store := ⟨none, none⟩

/-- The gas that a notice may cost unless something else is set. -/
def defaultGasLimit : UInt32 := 500000

/-- The parameters in effect when none were set: no contract is deployed. -/
def defaultParams (n : Notifier) : Params := ⟨n.unset, n.unset, defaultGasLimit⟩

/-- The parameters in effect. -/
def params (n : Notifier) (s : Store) : Params := s.params.getD n.defaultParams

/-! ## Parameters and genesis -/

/-- A call that changes the store; what it has changed before it fails stays changed. -/
abbrev Update := ExceptT NotifierError (StateM Store)

/-- Makes an update on a store. -/
def perform {α : Type} (s : Store) (update : Update α) : Except NotifierError α × Store :=
  Id.run (update.run.run s)

/-- Stores parameters that pass their checks. -/
def setParams (n : Notifier) (p : Params) : Update Unit := do
  attempt (p.check n.hrp)
  modify fun s => { s with params := some p }

/-- Stores parameters on the authority's behalf. -/
def updateParams (n : Notifier) (sender : String) (p : Params) : Update Unit := do
  attempt (demand (sender = n.authority) (.unauthorized n.authority sender))
  n.setParams p

/-- The genesis of a chain on which nothing was set. -/
def defaultGenesis (n : Notifier) : Genesis := ⟨n.defaultParams⟩

/-- Stores the parameters of a genesis. -/
def initGenesis (n : Notifier) (g : Genesis) : Update Unit := do
  attempt (g.check n.hrp)
  n.setParams g.params

/-- The genesis that leads to the parameters in effect. -/
def exportGenesis (n : Notifier) (s : Store) : Genesis := ⟨n.params s⟩

/-! ## Blocks -/

/-- A call that changes the store and may run a contract on the host. -/
abbrev Dispatch (σ : Type) := ExceptT NotifierError (StateM (Store × σ))

/-- Makes a call on a store and a host. -/
def dispatch {α σ : Type} (s : Store) (host : σ) (call : Dispatch σ α) :
    Except NotifierError α × Store × σ :=
  Id.run (call.run.run (s, host))

variable {σ : Type}

/-- Runs a contract under a gas limit, and yields the gas that it used. The meter is read again at
the end, since the executor may have ignored it. -/
def execute (run : Executor σ) (contract message : String) (gasLimit : UInt32) :
    Dispatch σ UInt64 := fun (s, host) =>
  let (result, meter, host) := (run contract message).run (GasMeter.new gasLimit.toUInt64, host)
  match result with
  | .error e => (.error (.execution e), s, host)
  | .ok () =>
    match meter.check with
    | .error e => (.error (.execution e), s, host)
    | .ok () => (.ok meter.consumed, s, host)

/-- Tells a contract about a block, and yields the gas that it used. -/
def sendNotice (run : Executor σ) (h : Header) (contract : String) (gasLimit : UInt32) :
    Dispatch σ UInt64 :=
  execute run contract (jsonText h.message) gasLimit

/-- Tells the contract about a block, unless no contract is set. A height that is not above the last
one is an error. If the contract fails, the height stays open. -/
def beginBlock (n : Notifier) (run : Executor σ) (h : Header) : Dispatch σ Unit := do
  let store := (← get).1
  let p := n.params store
  unless Address.isUnset p.contract n.hrp do
    attempt (demand (store.lastHeight.all (· < h.height)) (.alreadyNotified h.height))
    let _ ← sendNotice run h p.contract p.gasLimit
    modify fun (s, host) => ({ s with lastHeight := some h.height }, host)

/-- There is nothing to do at the end of a block. -/
def endBlock (_ : Header) : Dispatch σ Unit := return ()

end Notifier

end Restaking
