import Restaking.Json.Form
import Restaking.Text.Hex
import Restaking.Timestamp

/-!
# Block headers and notices

When a block begins, the host tells the contract about it. The notice holds the header of the block
with every part spelt out as a text or a number.
-/

namespace Restaking

/-- The header of a block. -/
structure Header where
  height : Int64
  hash : Bytes
  time : Timestamp
  chainId : String
  appHash : Bytes
  deriving DecidableEq

/-- What the contract is told about a block. -/
structure BlockNotice where
  height : Int64
  /-- The hash in hexadecimal. -/
  hash : String
  /-- The time in RFC 3339. -/
  time : String
  chainId : String
  /-- The hash of the application's state in hexadecimal. -/
  appHash : String
  deriving DecidableEq

/-- A message from the host to the contract. -/
inductive HostMessage where
  | beginBlock (notice : BlockNotice)
  deriving DecidableEq

/-- The notice of a block. -/
def Header.notice (h : Header) : BlockNotice where
  height := h.height
  hash := Hex.encode h.hash
  time := h.time.text
  chainId := h.chainId
  appHash := Hex.encode h.appHash

/-- The message that a block begins. -/
def Header.message (h : Header) : HostMessage := .beginBlock h.notice

/-! ## JSON forms -/

open Json (field variant)

instance : JsonForm BlockNotice where
  toJson n := .obj (field "height" n.height ++ field "hash_hex" n.hash ++ field "time" n.time
    ++ field "chain_id" n.chainId ++ field "app_hash_hex" n.appHash)
  ofJson? v := do
    let ms ← v.members?
    return {
      height := ← ms.required? "height"
      hash := ← ms.required? "hash_hex"
      time := ← ms.required? "time"
      chainId := ← ms.required? "chain_id"
      appHash := ← ms.required? "app_hash_hex" }

instance : JsonForm HostMessage where
  toJson
    | .beginBlock n => variant "begin_block" (toJson n)
  ofJson? v := do
    match ← v.variant? with
    | ("begin_block", v) => return .beginBlock (← ofJson? v)
    | _ => none

end Restaking
