import WalletConsent.Fault

/-!
Raw addresses. The upper half of the first byte gives the kind; the kind gives the lengths that a
well-formed address can have. In the kinds below 8 an odd number marks a script hash as the payment
part.
-/

set_option autoImplicit false

namespace WalletConsent

inductive AddressKind
  | base
  | pointer
  | enterprise
  | byron
  | reward
  deriving DecidableEq

namespace AddressKind

def ofHeader? (header : UInt8) : Option AddressKind :=
  match header.toNat / 16 with
  | 0 | 1 | 2 | 3 => some base
  | 4 | 5 => some pointer
  | 6 | 7 => some enterprise
  | 8 => some byron
  | 14 | 15 => some reward
  | _ => none

def allowsLength : AddressKind → Nat → Bool
  | base, n => n == 57
  | enterprise, n => n == 29
  | reward, n => n == 29
  | pointer, n => 30 ≤ n
  | byron, n => 2 ≤ n

end AddressKind

/-- Decides whether raw bytes are an address. -/
abbrev AddressCheck := List UInt8 → Bool

def Address.maxLength : Nat := 128

structure Address where
  bytes : List UInt8
  length_le : bytes.length ≤ Address.maxLength
  deriving DecidableEq

namespace Address

def of (bytes : List UInt8) : Except WireFault Address :=
  if h : bytes.length ≤ maxLength then .ok ⟨bytes, h⟩ else .error .invalidLength

def kind? (raw : List UInt8) : Option AddressKind :=
  raw.head?.bind AddressKind.ofHeader?

def paysScript (raw : List UInt8) : Bool :=
  match raw with
  | header :: _ => header.toNat / 16 < 8 && header.toNat / 16 % 2 == 1
  | [] => false

/-- The check by header alone: a known kind, and a length which that kind allows. -/
def isWellFormed : AddressCheck := fun raw =>
  match kind? raw with
  | some kind => kind.allowsLength raw.length
  | none => false

theorem bytes_injective {a b : Address} (same : a.bytes = b.bytes) : a = b := by
  cases a
  cases b
  cases same
  rfl

@[simp]
theorem of_bytes (a : Address) : of a.bytes = .ok a := by
  simp [of, a.length_le]

end Address

end WalletConsent
