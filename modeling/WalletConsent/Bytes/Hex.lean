import WalletConsent.Fault

/-!
Hexadecimal text, two digits a byte. Writing uses lower case, reading takes either case. Bytes are
never shortened to fit a room: text that does not fit is refused.
-/

set_option autoImplicit false

namespace WalletConsent.Hex

def ofByte (b : UInt8) : List Char :=
  [Nat.digitChar (b.toNat / 16), Nat.digitChar (b.toNat % 16)]

def ofBytes (bs : List UInt8) : List Char :=
  bs.flatMap ofByte

/-- The text, if the room in bytes holds it. -/
def text (room : Nat) (bs : List UInt8) : Except Fault String :=
  if 2 * bs.length ≤ room then .ok (String.ofList (ofBytes bs)) else .error .invalidLength

def digit? (c : Char) : Option Nat :=
  if '0' ≤ c ∧ c ≤ '9' then some (c.toNat - 48)
  else if 'a' ≤ c ∧ c ≤ 'f' then some (c.toNat - 87)
  else if 'A' ≤ c ∧ c ≤ 'F' then some (c.toNat - 55)
  else none

/-- Refuses an odd number of digits and every other character. -/
def toBytes? : List Char → Option (List UInt8)
  | [] => some []
  | [_] => none
  | high :: low :: rest => do
    let h ← digit? high
    let l ← digit? low
    let bs ← toBytes? rest
    return UInt8.ofNat (16 * h + l) :: bs

@[simp]
theorem ofBytes_nil : ofBytes [] = [] := rfl

@[simp]
theorem ofBytes_cons (b : UInt8) (bs : List UInt8) : ofBytes (b :: bs) = ofByte b ++ ofBytes bs :=
  rfl

@[simp]
theorem length_ofBytes (bs : List UInt8) : (ofBytes bs).length = 2 * bs.length := by
  induction bs with
  | nil => rfl
  | cons b bs ih => simp [ofByte, ih]; omega

theorem digit?_digitChar {n : Nat} (small : n < 16) : digit? (Nat.digitChar n) = some n := by
  have all : ∀ n < 16, digit? (Nat.digitChar n) = some n := by decide
  exact all n small

theorem exists_digit_of_mem_ofBytes {c : Char} {bs : List UInt8} (among : c ∈ ofBytes bs) :
    ∃ n < 16, c = Nat.digitChar n := by
  obtain ⟨b, -, among⟩ := List.mem_flatMap.mp among
  have range := b.toNat_lt
  rcases List.mem_cons.mp among with high | low
  · exact ⟨b.toNat / 16, by omega, high⟩
  · exact ⟨b.toNat % 16, by omega, List.mem_singleton.mp low⟩

theorem not_mem_ofBytes {c : Char} (bs : List UInt8) (other : ∀ n < 16, c ≠ Nat.digitChar n) :
    c ∉ ofBytes bs := by
  intro among
  obtain ⟨n, small, same⟩ := exists_digit_of_mem_ofBytes among
  exact other n small same

theorem toBytes?_ofBytes (bs : List UInt8) : toBytes? (ofBytes bs) = some bs := by
  induction bs with
  | nil => rfl
  | cons b bs ih =>
    have small : b.toNat < 256 := b.toNat_lt
    have whole : UInt8.ofNat (16 * (b.toNat / 16) + b.toNat % 16) = b := by
      rw [Nat.div_add_mod, UInt8.ofNat_toNat]
    rw [ofBytes_cons, ofByte, List.cons_append, List.cons_append, List.nil_append, toBytes?,
      digit?_digitChar (by omega), digit?_digitChar (by omega), ih]
    exact congrArg (fun byte => some (byte :: bs)) whole

end WalletConsent.Hex
