import WalletConsent.Request.Encoding
import WalletConsent.Wire.Encoder

/-!
How requests are written to a buffer: the room for the parts of fixed size is asked for once, and
each of them is put at its place. A path asks for its own room, in the part of the buffer left to
it.
-/

set_option autoImplicit false

namespace WalletConsent

open Wire Encoder

def Path.encoder (p : Path) : Encoder Nat := do
  let size := p.encodedLength
  room size
  put 0 [UInt8.ofNat p.length]
  p.segments.zipIdx.forM fun (s, i) => put (1 + 4 * i) (BigEndian.bytes 4 s.toNat)
  return size

def UtxoRef.encoder (u : UtxoRef) : Encoder Nat := do
  room encodedLength
  put 0 u.transaction.bytes
  put 32 (BigEndian.bytes 4 u.index.toNat)
  return encodedLength

namespace Request

/-- Flags are written by an encoder of single bytes. -/
def encoder (byte : UInt8 → Encoder Nat) : Request → Encoder Nat
  | keyBatch count => do
    room 4
    put 0 (BigEndian.bytes 4 count.toNat)
    return 4
  | keyExport path | witness path => path.encoder
  | deriveAddress mode spending staking => do
    room 2
    put 0 [mode.code]
    put 1 [presence staking]
    let n := 2 + (← behind 2 spending.encoder)
    match staking with
    | none => return n
    | some path => return n + (← behind n path.encoder)
  | txInit account inputs outputs witnesses => do
    room 10
    put 0 (BigEndian.bytes 4 account.toNat)
    put 4 (BigEndian.bytes 2 inputs.toNat)
    put 6 (BigEndian.bytes 2 outputs.toNat)
    put 8 (BigEndian.bytes 2 witnesses.toNat)
    return 10
  | txInput utxo | attestUtxo utxo => utxo.encoder
  | txOutput amount flags address => do
    let size := 10 + address.bytes.length
    room size
    put 0 (BigEndian.bytes 8 amount.toNat)
    let _ ← behind 8 (byte flags.toByte)
    put 9 [UInt8.ofNat address.bytes.length]
    put 10 address.bytes
    return size
  | changeOutput amount flags path staking => do
    room 10
    put 0 (BigEndian.bytes 8 amount.toNat)
    let _ ← behind 8 (byte flags.toByte)
    put 9 [presence staking]
    let n := 10 + (← behind 10 path.encoder)
    match staking with
    | none => return n
    | some path => return n + (← behind n path.encoder)
  | txFee fee => do
    room 8
    put 0 (BigEndian.bytes 8 fee.toNat)
    return 8

end Request

end WalletConsent
