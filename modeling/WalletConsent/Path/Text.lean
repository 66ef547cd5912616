import WalletConsent.Path.Basic

/-!
Paths as text: an `m`, then each index in decimal after a slash, a hardened one with an
apostrophe behind it.
-/

set_option autoImplicit false

namespace WalletConsent

def Segment.text (s : Segment) : List Char :=
  Nat.toDigits 10 (Segment.index s).toNat ++ if Segment.isHardened s then ['\x27'] else []

namespace Path

def text (p : Path) : List Char :=
  'm' :: p.segments.flatMap fun s => '/' :: s.text

instance : ToString Path := ⟨fun p => String.ofList p.text⟩

end Path

end WalletConsent
