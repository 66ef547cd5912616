/-!
Numbers as bytes, most significant byte first. `value` undoes `bytes` for every number that the
width can hold, and `bytes` undoes `value` for every list of that width.
-/

set_option autoImplicit false

namespace WalletConsent.BigEndian

def bytes : (width : Nat) → Nat → List UInt8
  | 0, _ => []
  | width + 1, n => bytes width (n / 256) ++ [UInt8.ofNat n]

/-- How many numbers a width can hold. -/
def capacity : (width : Nat) → Nat
  | 0 => 1
  | width + 1 => 256 * capacity width

def value (bs : List UInt8) : Nat :=
  bs.foldl (fun n b => n * 256 + b.toNat) 0

@[simp]
theorem length_bytes (width n : Nat) : (bytes width n).length = width := by
  induction width generalizing n with
  | zero => rfl
  | succ width ih => simp [bytes, ih]

@[simp]
theorem value_nil : value [] = 0 := rfl

theorem value_append_singleton (bs : List UInt8) (b : UInt8) :
    value (bs ++ [b]) = value bs * 256 + b.toNat := by
  simp [value, List.foldl_append]

theorem value_bytes (width n : Nat) : value (bytes width n) = n % capacity width := by
  induction width generalizing n with
  | zero => simp [bytes, capacity, Nat.mod_one]
  | succ width ih =>
    have last : (UInt8.ofNat n).toNat = n % 256 := by simp
    rw [bytes, value_append_singleton, ih, last, capacity, Nat.mod_mul]
    omega

theorem value_bytes_of_lt {width n : Nat} (fits : n < capacity width) :
    value (bytes width n) = n := by
  rw [value_bytes, Nat.mod_eq_of_lt fits]

theorem bytes_value (bs : List UInt8) : bytes bs.length (value bs) = bs := by
  induction size : bs.length generalizing bs with
  | zero => rw [List.length_eq_zero_iff.mp size]; rfl
  | succ width ih =>
    obtain rfl | ⟨front, b, rfl⟩ := List.eq_nil_or_concat bs
    · simp at size
    · have small : b.toNat < 256 := b.toNat_lt
      have rest : (value front * 256 + b.toNat) / 256 = value front := by omega
      have last : UInt8.ofNat (value front * 256 + b.toNat) = b := by
        apply UInt8.toNat_inj.mp
        simp
      have shorter : front.length = width := by simpa using size
      rw [List.concat_eq_append, bytes, value_append_singleton, rest, ih front shorter, last]

theorem capacity_pos (width : Nat) : 0 < capacity width := by
  induction width with
  | zero => exact Nat.one_pos
  | succ width ih => exact Nat.mul_pos (by decide) ih

theorem value_lt (bs : List UInt8) : value bs < capacity bs.length := by
  have reread := value_bytes bs.length (value bs)
  rw [bytes_value] at reread
  rw [reread]
  exact Nat.mod_lt _ (capacity_pos _)

end WalletConsent.BigEndian
