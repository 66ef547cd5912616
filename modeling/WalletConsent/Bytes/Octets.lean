/-!
Byte strings of one fixed length: transaction and datum hashes, policy ids, and the fields of a
wire request.
-/

set_option autoImplicit false

namespace WalletConsent

structure Octets (size : Nat) where
  bytes : List UInt8
  length_bytes : bytes.length = size
  deriving DecidableEq

namespace Octets

variable {size : Nat}

def of? (bs : List UInt8) : Option (Octets size) :=
  if h : bs.length = size then some ⟨bs, h⟩ else none

theorem bytes_injective {a b : Octets size} (same : a.bytes = b.bytes) : a = b := by
  cases a
  cases b
  cases same
  rfl

@[simp]
theorem of?_bytes (o : Octets size) : of? o.bytes = some o := by
  simp [of?, o.length_bytes]

end Octets

end WalletConsent
