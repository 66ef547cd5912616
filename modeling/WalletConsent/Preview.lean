import WalletConsent.Bytes.Hex

/-!
Datums and scripts are shown by their size and their first bytes, with two dots where bytes are
left out.
-/

set_option autoImplicit false

namespace WalletConsent

def Preview.maxLength : Nat := 32

structure Preview where
  size : UInt32
  leading : List UInt8
  length_le : leading.length ≤ Preview.maxLength
  deriving DecidableEq

namespace Preview

def of (size : UInt32) (data : List UInt8) : Preview :=
  ⟨size, data.take maxLength, by rw [List.length_take]; omega⟩

def text (p : Preview) : List Char :=
  Nat.toDigits 10 p.size.toNat ++ " bytes: ".toList ++ Hex.ofBytes p.leading ++
    if p.leading.length < p.size.toNat then ['.', '.'] else []

end Preview

end WalletConsent
