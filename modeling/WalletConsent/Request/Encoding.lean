import WalletConsent.Bytes.BigEndian
import WalletConsent.Request.Basic
import WalletConsent.Wire.Writing

/-!
Requests as bytes. Numbers are big-endian; a path is its segment count and its segments; an
optional staking path is announced by a flag in the header and comes last. The fields listed here
are the units in which a request is written; its length is known without writing it.
-/

set_option autoImplicit false

namespace WalletConsent

def Path.encode (p : Path) : List UInt8 :=
  UInt8.ofNat p.segments.length :: p.segments.flatMap fun s => BigEndian.bytes 4 s.toNat

def Path.encodedLength (p : Path) : Nat := 1 + 4 * p.length

def UtxoRef.encode (u : UtxoRef) : List UInt8 :=
  u.transaction.bytes ++ BigEndian.bytes 4 u.index.toNat

def UtxoRef.encodedLength : Nat := 32 + 4

namespace Request

/-- Whether an optional part follows. -/
def presence {α : Type} (part : Option α) : UInt8 := if part.isSome then 1 else 0

def fields : Request → List (List UInt8)
  | keyBatch count => [BigEndian.bytes 4 count.toNat]
  | keyExport path => [path.encode]
  | deriveAddress mode spending staking =>
    [mode.code, presence staking] :: spending.encode :: staking.toList.map Path.encode
  | txInit account inputs outputs witnesses =>
    [BigEndian.bytes 4 account.toNat ++ BigEndian.bytes 2 inputs.toNat ++
      BigEndian.bytes 2 outputs.toNat ++ BigEndian.bytes 2 witnesses.toNat]
  | txInput utxo => [utxo.encode]
  | txOutput amount flags address =>
    [BigEndian.bytes 8 amount.toNat ++
      flags.toByte :: UInt8.ofNat address.bytes.length :: address.bytes]
  | changeOutput amount flags path staking =>
    (BigEndian.bytes 8 amount.toNat ++ [flags.toByte, presence staking]) :: path.encode ::
      staking.toList.map Path.encode
  | txFee fee => [BigEndian.bytes 8 fee.toNat]
  | witness path => [path.encode]
  | attestUtxo utxo => [utxo.encode]

def encode (r : Request) : List UInt8 := r.fields.flatten

def encodedLength : Request → Nat
  | keyBatch _ => 4
  | keyExport path => path.encodedLength
  | deriveAddress _ spending staking =>
    2 + spending.encodedLength + staking.elim 0 Path.encodedLength
  | txInit .. => 10
  | txInput _ => UtxoRef.encodedLength
  | txOutput _ _ address => 10 + address.bytes.length
  | changeOutput _ _ path staking => 10 + path.encodedLength + staking.elim 0 Path.encodedLength
  | txFee _ => 8
  | witness path => path.encodedLength
  | attestUtxo _ => UtxoRef.encodedLength

end Request

end WalletConsent
