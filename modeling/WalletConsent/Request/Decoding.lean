import WalletConsent.Request.Basic
import WalletConsent.Wire.Reader

/-!
Reading requests. A staking flag is looked at only after the path before the staking path has been
read, so a bad path is reported first; an address mode is looked at before any path.
-/

set_option autoImplicit false

namespace WalletConsent

def Path.read : Reader Path := do
  let count ← Reader.byte
  if h : count.toNat ≤ Path.maxLength then
    let segments ← Reader.times Reader.word32 count.toNat
    return ⟨segments.val, Nat.le_trans (Nat.le_of_eq segments.property) h⟩
  else throw .invalidEncoding

def UtxoRef.read : Reader UtxoRef := do
  let transaction ← Reader.octets 32
  let index ← Reader.word32
  return ⟨transaction, index⟩

def OutputFlags.read : Reader OutputFlags := OutputFlags.ofByte <$> Reader.byte

def Address.read (length : Nat) : Reader Address := do
  if h : length ≤ maxLength then
    let field ← Reader.octets length
    return ⟨field.bytes, Nat.le_trans (Nat.le_of_eq field.length_bytes) h⟩
  else throw .invalidEncoding

namespace Request

def read : Kind → Reader Request
  | .keyBatch => keyBatch <$> Reader.word32
  | .keyExport => keyExport <$> Path.read
  | .deriveAddress => do
    let code ← Reader.byte
    let flag ← Reader.byte
    match AddressMode.ofCode? code with
    | none => throw .invalidEncoding
    | some mode =>
      let spending ← Path.read
      let staking ← Reader.optional flag Path.read
      return deriveAddress mode spending staking
  | .txInit => do
    let account ← Reader.word32
    let inputs ← Reader.word16
    let outputs ← Reader.word16
    let witnesses ← Reader.word16
    return txInit account inputs outputs witnesses
  | .txInput => txInput <$> UtxoRef.read
  | .txOutput => do
    let amount ← Reader.word64
    let flags ← OutputFlags.read
    let length ← Reader.byte
    let address ← Address.read length.toNat
    return txOutput amount flags address
  | .changeOutput => do
    let amount ← Reader.word64
    let flags ← OutputFlags.read
    let flag ← Reader.byte
    let path ← Path.read
    let staking ← Reader.optional flag Path.read
    return changeOutput amount flags path staking
  | .txFee => txFee <$> Reader.word64
  | .witness => witness <$> Path.read
  | .attestUtxo => attestUtxo <$> UtxoRef.read

/-- The request under an instruction byte; bytes after it are ignored. -/
def parse (ins : UInt8) (bs : List UInt8) : Except WireFault Request :=
  match Kind.ofInstruction? ins with
  | none => .error .invalidEncoding
  | some kind => ((read kind).run bs).map Prod.fst

end Request

end WalletConsent
