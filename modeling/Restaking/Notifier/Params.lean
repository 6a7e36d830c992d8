import Restaking.Address
import Restaking.Check
import Restaking.Json.Form
import Restaking.Notifier.Gas

/-!
# Parameters of the notifier

The notifier knows the addresses of two contracts and the gas that a notice may cost. An address is
valid under the human-readable part of the chain; the address of the unset account says that a
contract is not deployed.
-/

namespace Restaking

/-- Why the notifier refuses a call, or why a notice fails. -/
inductive NotifierError where
  /-- An address, or the human-readable part, is not valid. -/
  | badAddress (field : String) (e : Address.Error)
  | noGas
  /-- Only the authority may change the parameters. -/
  | unauthorized (authority sender : String)
  /-- The contract has been told about the height already. -/
  | alreadyNotified (height : Int64)
  /-- The contract fails, or runs out of gas. -/
  | execution (e : ExecutionError)
  deriving DecidableEq

/-- The wording of an error. -/
def NotifierError.message : NotifierError → String
  | .badAddress field e => "Invalid " ++ field ++ ": " ++ e.message
  | .noGas => "Empty max gas begin-blocker setting"
  | .unauthorized authority sender =>
    "Invalid authority; expected " ++ authority ++ ", got " ++ sender
  | .alreadyNotified height =>
    "Begin block already dispatched for height " ++ Numeral.intText height.toInt
  | .execution e => e.message

namespace Notifier

/-- The parameters of the notifier. -/
structure Params where
  /-- The contract that is told about every block. -/
  contract : String
  /-- The contract that keeps the delegations. -/
  stakingContract : String
  /-- The gas that a notice may cost. -/
  gasLimit : UInt32
  deriving DecidableEq

/-- Checks that a field holds an address of the chain. -/
def checkAddress (field text hrp : String) : Except NotifierError Unit :=
  match Address.decode text hrp with
  | .ok _ => .ok ()
  | .error e => .error (.badAddress field e)

/-- Checks both addresses, and that there is gas. -/
def Params.check (p : Params) (hrp : String) : Except NotifierError Unit := do
  checkAddress "babylon_contract_address" p.contract hrp
  checkAddress "btc_staking_contract_address" p.stakingContract hrp
  demand (p.gasLimit ≠ 0) .noGas

/-- The state that a chain starts with. -/
structure Genesis where
  params : Params
  deriving DecidableEq

/-- Checks the parameters. -/
def Genesis.check (g : Genesis) (hrp : String) : Except NotifierError Unit := g.params.check hrp

/-- The address of the unset account, which needs a valid human-readable part. -/
def unsetAddress (hrp : String) : Except NotifierError String :=
  (Address.ofUnset hrp).mapError (.badAddress "bech32 prefix")

open Json (field)

instance : JsonForm Params where
  toJson p := .obj (field "babylon_contract_address" p.contract
    ++ field "btc_staking_contract_address" p.stakingContract
    ++ field "max_gas_begin_blocker" p.gasLimit)
  ofJson? v := do
    let ms ← v.members?
    return {
      contract := ← ms.required? "babylon_contract_address"
      stakingContract := ← ms.required? "btc_staking_contract_address"
      gasLimit := ← ms.required? "max_gas_begin_blocker" }

instance : JsonForm Genesis where
  toJson g := .obj (field "params" g.params)
  ofJson? v := do
    let ms ← v.members?
    return { params := ← ms.required? "params" }

end Notifier

end Restaking
