import WalletConsent.Address
import WalletConsent.Bytes.Octets
import WalletConsent.Policy.Basic
import WalletConsent.Preview
import WalletConsent.Request.Basic

/-!
What a flow asks the user about: the parts of a request that the user gets to see. Addresses and
names are held as they come; `fits` bounds their length.
-/

set_option autoImplicit false

namespace WalletConsent

/-- A datum attached to an output. -/
inductive Datum
  | hash (hash : Octets 32)
  | inline (preview : Preview)
  deriving DecidableEq

namespace Flow

inductive Kind
  | keyExport
  | keyBatch
  | deriveAddress
  | output
  | changeOutput
  | collateral
  | token
  | datum
  | script
  | outputConfirm
  | fee
  | witness
  | txConfirm
  deriving DecidableEq

inductive Content
  | keyExport (path : Path)
  | keyBatch (count : UInt32)
  | deriveAddress (mode : AddressMode) (spending : Path) (staking : Option Path)
    (raw : List UInt8)
  /-- An output to a given address; `bare` marks one locked by a script without a datum. -/
  | output (amount : UInt64) (raw : List UInt8) (bare : Bool)
  /-- An output to an address of the wallet, shown where it is known. -/
  | changeOutput (amount : UInt64) (path : Path) (staking : Option Path)
    (raw : Option (List UInt8)) (carriesDatum : Bool)
  | collateral (amount : UInt64) (raw : List UInt8)
  | token (policyId : Octets 28) (name : List UInt8) (quantity : UInt64)
  | datum (datum : Datum)
  | script (preview : Preview)
  | outputConfirm
  | fee (fee : UInt64)
  | witness (path : Path)
  | txConfirm
  deriving DecidableEq

namespace Content

def maxNameLength : Nat := 32

def kind : Content → Kind
  | keyExport .. => .keyExport
  | keyBatch .. => .keyBatch
  | deriveAddress .. => .deriveAddress
  | output .. => .output
  | changeOutput .. => .changeOutput
  | collateral .. => .collateral
  | token .. => .token
  | datum .. => .datum
  | script .. => .script
  | outputConfirm => .outputConfirm
  | fee .. => .fee
  | witness .. => .witness
  | txConfirm => .txConfirm

/-- Addresses and names are no longer than the wallet can hold. -/
def fits : Content → Bool
  | deriveAddress _ _ _ raw | output _ raw _ | changeOutput _ _ _ (some raw) _
  | collateral _ raw => raw.length ≤ Address.maxLength
  | token _ name _ => name.length ≤ maxNameLength
  | _ => true

end Content

end Flow

end WalletConsent
