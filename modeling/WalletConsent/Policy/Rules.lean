import WalletConsent.Policy.Basic
import WalletConsent.Request.Basic

/-!
The policy for each request, by its paths, its address and the transaction in progress alone.

An ordinary payment path is 44'/1815'/a'/c/i with a reasonable account a, c external or internal
and a reasonable index i; the ordinary staking path of that account is 44'/1815'/a'/2/0. Paths that
do not lie under an account of the wallet are denied, all other departures are warned of.
-/

set_option autoImplicit false

namespace WalletConsent

namespace Path

def isOrdinaryPayment (p : Path) : Bool :=
  p.length == 5 && p.hasReasonableAccount &&
    (p.chain? == some .external || p.chain? == some .internal) && p.hasReasonableAddress

def isOrdinaryStaking (p : Path) : Bool :=
  p.length == 5 && p.hasReasonableAccount && p.chain? == some .staking && p.get? 4 == some 0

/-- The ordinary staking path of the given account. -/
def isStakingOf (p : Path) (account : Option UInt32) : Bool :=
  p.isOrdinaryStaking && account.isSome && p.account? == account

end Path

namespace Policy

def rooted (path : Path) (staking : Option Path) : Bool :=
  path.hasWalletRoot && staking.all Path.hasWalletRoot

def keyBatch (count : UInt32) : Policy :=
  if count = 0 then deny else if count = 1 then allow else prompt

/-- Keys are exported at the account level. -/
def keyExport (path : Path) : Policy :=
  if !path.hasWalletRoot then deny
  else if !path.hasReasonableAccount || path.containsChain then warn
  else prompt

/-- An address that the wallet would derive for itself. -/
def isOrdinaryDerivation (spending : Path) (staking : Option Path) : Bool :=
  (spending.isOrdinaryPayment || spending.isOrdinaryStaking) &&
    staking.all (·.isStakingOf spending.account?)

def deriveAddress (mode : AddressMode) (spending : Path) (staking : Option Path) : Policy :=
  if !rooted spending staking then deny
  else
    match mode, isOrdinaryDerivation spending staking with
    | .onDevice, true => present
    | .onDevice, false => warn
    | .toHost, true => allow
    | .toHost, false => prompt

def rawOutput (check : AddressCheck) (raw : List UInt8) : Policy :=
  if check raw then prompt else deny

/-- Change goes to an internal path of the account being signed for. -/
def changeOutput (ctx : Option TxContext) (path : Path) (staking : Option Path) : Policy :=
  if !rooted path staking then deny
  else
    match ctx with
    | none => warn
    | some tx =>
      if path.length == 5 && path.account? == some tx.account && path.chain? == some .internal &&
          path.hasReasonableAddress && staking.all (·.isStakingOf (some tx.account)) then allow
      else warn

def witness (ctx : Option TxContext) (path : Path) : Policy :=
  if !path.hasWalletRoot then deny
  else
    match ctx with
    | none => warn
    | some tx =>
      if path.account? == some tx.account && path.hasReasonableAccount && path.hasChain &&
          path.containsAddress then allow
      else warn

/-- Announcing a transaction, adding an input and attesting to an output never involve the user. -/
def silent : Policy := allow

/-- Every fee is shown. -/
def txFee (_fee : UInt64) : Policy := prompt

def txConfirm : Policy := prompt

end Policy

def Request.policy (ctx : Option TxContext) (check : AddressCheck) : Request → Policy
  | keyBatch count => .keyBatch count
  | keyExport path => .keyExport path
  | deriveAddress mode spending staking => .deriveAddress mode spending staking
  | txInit .. | txInput _ | attestUtxo _ => .silent
  | txOutput _ _ address => .rawOutput check address.bytes
  | changeOutput _ _ path staking => .changeOutput ctx path staking
  | txFee fee => .txFee fee
  | witness path => .witness ctx path

end WalletConsent
