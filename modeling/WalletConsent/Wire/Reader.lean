import WalletConsent.Wire.Writing
import WalletConsent.Bytes.BigEndian
import WalletConsent.Bytes.Octets

/-!
Readers take fields from the front of the bytes and leave the rest. A field that the bytes are too
short for is `invalidLength`.
-/

set_option autoImplicit false

namespace WalletConsent

abbrev Reader (α : Type) := StateT (List UInt8) (Except WireFault) α

namespace Reader

def octets (size : Nat) : Reader (Octets size) := fun bs =>
  if h : size ≤ bs.length then
    .ok (⟨bs.take size, by rw [List.length_take]; omega⟩, bs.drop size)
  else .error .invalidLength

def number (size : Nat) : Reader Nat := do
  let field ← octets size
  return BigEndian.value field.bytes

def byte : Reader UInt8 := UInt8.ofNat <$> number 1

def word16 : Reader UInt16 := UInt16.ofNat <$> number 2

def word32 : Reader UInt32 := UInt32.ofNat <$> number 4

def word64 : Reader UInt64 := UInt64.ofNat <$> number 8

/-- The given number of items, one after the other. -/
def times {α : Type} (item : Reader α) : (n : Nat) → Reader { xs : List α // xs.length = n }
  | 0 => pure ⟨[], rfl⟩
  | n + 1 => do
    let x ← item
    let xs ← times item n
    return ⟨x :: xs.val, by simp [xs.property]⟩

/-- An item that is there when the flag is 1 and absent when it is 0. -/
def optional {α : Type} (flag : UInt8) (item : Reader α) : Reader (Option α) :=
  if flag = 0 then pure none
  else if flag = 1 then some <$> item
  else throw .invalidEncoding

/-- The value read and the number of bytes it took. -/
def consume {α : Type} (r : Reader α) (bs : List UInt8) : Except WireFault (α × Nat) :=
  (r.run bs).map fun (x, rest) => (x, bs.length - rest.length)

end Reader

end WalletConsent
