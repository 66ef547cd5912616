import WalletConsent.Flow.Basic
import WalletConsent.Policy.Rules

/-!
The flow that asks the user about a request, if the request needs consent at all. A denied request
fails before anything else is looked at; an address to show is derived before its flow is built.
-/

set_option autoImplicit false

namespace WalletConsent

/-- Derives the address of a spending path and perhaps a staking path. -/
abbrev Deriver := Path → Option Path → Except Fault (List UInt8)

def Request.flow (ctx : Option TxContext) (check : AddressCheck) (derive : Deriver)
    (r : Request) : Except Fault (Option Flow) := do
  let policy ← (r.policy ctx check).check
  match r with
  | keyBatch count => some <$> Flow.of policy (.keyBatch count)
  | keyExport path => some <$> Flow.of policy (.keyExport path)
  | deriveAddress mode spending staking =>
    let raw ← derive spending staking
    some <$> Flow.of policy (.deriveAddress mode spending staking raw)
  | txOutput amount flags address =>
    if flags.collateral then some <$> Flow.of policy (.collateral amount address.bytes)
    else
      let bare := Address.paysScript address.bytes && !flags.carriesDatum
      some <$> Flow.of policy (.output amount address.bytes bare)
  | changeOutput amount flags path staking =>
    some <$> Flow.of policy (.changeOutput amount path staking none flags.carriesDatum)
  | txFee fee => some <$> Flow.of policy (.fee fee)
  | witness path => some <$> Flow.of policy (.witness path)
  | txInit .. | txInput _ | attestUtxo _ => return none

end WalletConsent
