import WalletConsent.Address
import WalletConsent.Bytes.Octets
import WalletConsent.Path.Basic

/-!
What a host can ask of the wallet. Each kind of request has an instruction byte of its own.
-/

set_option autoImplicit false

namespace WalletConsent

/-- Where a derived address goes. -/
inductive AddressMode
  | toHost
  | onDevice
  deriving DecidableEq

namespace AddressMode

def code : AddressMode → UInt8
  | toHost => 1
  | onDevice => 2

def ofCode? (code : UInt8) : Option AddressMode :=
  if code = 1 then some toHost else if code = 2 then some onDevice else none

theorem ofCode?_eq_some_iff {code : UInt8} {mode : AddressMode} :
    ofCode? code = some mode ↔ code = mode.code := by
  cases mode <;> grind [ofCode?, AddressMode.code]

end AddressMode

/-- What an output carries besides its amount. -/
structure OutputFlags where
  datumHash : Bool
  inlineDatum : Bool
  script : Bool
  collateral : Bool
  deriving DecidableEq

namespace OutputFlags

def carriesDatum (f : OutputFlags) : Bool := f.datumHash || f.inlineDatum

/-- One bit a flag, from the lowest bit up. -/
def toByte (f : OutputFlags) : UInt8 :=
  UInt8.ofNat
    (f.datumHash.toNat + 2 * f.inlineDatum.toNat + 4 * f.script.toNat + 8 * f.collateral.toNat)

/-- The upper four bits mean nothing and are dropped. -/
def ofByte (b : UInt8) : OutputFlags where
  datumHash := b.toNat.testBit 0
  inlineDatum := b.toNat.testBit 1
  script := b.toNat.testBit 2
  collateral := b.toNat.testBit 3

@[simp]
theorem ofByte_toByte (f : OutputFlags) : ofByte f.toByte = f := by
  obtain ⟨datumHash, inlineDatum, script, collateral⟩ := f
  cases datumHash <;> cases inlineDatum <;> cases script <;> cases collateral <;> rfl

end OutputFlags

/-- An output of an earlier transaction. -/
structure UtxoRef where
  transaction : Octets 32
  index : UInt32
  deriving DecidableEq

inductive Request
  | keyBatch (count : UInt32)
  | keyExport (path : Path)
  | deriveAddress (mode : AddressMode) (spending : Path) (staking : Option Path)
  | txInit (account : UInt32) (inputs outputs witnesses : UInt16)
  | txInput (utxo : UtxoRef)
  | txOutput (amount : UInt64) (flags : OutputFlags) (address : Address)
  | changeOutput (amount : UInt64) (flags : OutputFlags) (path : Path) (staking : Option Path)
  | txFee (fee : UInt64)
  | witness (path : Path)
  | attestUtxo (utxo : UtxoRef)
  deriving DecidableEq

namespace Request

inductive Kind
  | keyBatch
  | keyExport
  | deriveAddress
  | txInit
  | txInput
  | txOutput
  | changeOutput
  | txFee
  | witness
  | attestUtxo
  deriving DecidableEq

def kind : Request → Kind
  | keyBatch .. => .keyBatch
  | keyExport .. => .keyExport
  | deriveAddress .. => .deriveAddress
  | txInit .. => .txInit
  | txInput .. => .txInput
  | txOutput .. => .txOutput
  | changeOutput .. => .changeOutput
  | txFee .. => .txFee
  | witness .. => .witness
  | attestUtxo .. => .attestUtxo

/-- The class byte shared by all requests. -/
def instructionClass : UInt8 := 0xd7

namespace Kind

def instruction : Kind → UInt8
  | keyBatch => 0x0f
  | keyExport => 0x10
  | deriveAddress => 0x11
  | txInit => 0x20
  | txInput => 0x21
  | txOutput => 0x22
  | changeOutput => 0x23
  | txFee => 0x24
  | witness => 0x25
  | attestUtxo => 0x30

def all : List Kind :=
  [keyBatch, keyExport, deriveAddress, txInit, txInput, txOutput, changeOutput, txFee, witness,
    attestUtxo]

theorem mem_all (k : Kind) : k ∈ all := by
  cases k <;> decide

def ofInstruction? (ins : UInt8) : Option Kind :=
  all.find? fun k => k.instruction = ins

@[simp]
theorem ofInstruction?_instruction (k : Kind) : ofInstruction? k.instruction = some k := by
  cases k <;> rfl

end Kind

end Request

end WalletConsent
