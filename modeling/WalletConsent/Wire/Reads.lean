import WalletConsent.Wire.Reader

/-!
What it means that a reader takes exactly the given bytes for a value, whatever follows them. Such
readers compose as their bytes do; every number is read back from its big-endian bytes.
-/

set_option autoImplicit false

namespace WalletConsent

namespace Reader

def Reads {α : Type} (r : Reader α) (bs : List UInt8) (a : α) : Prop :=
  ∀ rest, r.run (bs ++ rest) = .ok (a, rest)

variable {α β : Type}

theorem reads_pure (a : α) : Reads (pure a) [] a := fun _ => rfl

theorem Reads.bind {r : Reader α} {next : α → Reader β} {bs bs' : List UInt8} {a : α} {b : β}
    (first : Reads r bs a) (second : Reads (next a) bs' b) : Reads (r >>= next) (bs ++ bs') b := by
  intro rest
  rw [StateT.run_bind, List.append_assoc, first]
  exact second rest

/-- The last item read gives the value. -/
theorem Reads.last {r : Reader α} {bs : List UInt8} {a : α} (f : α → β) (first : Reads r bs a) :
    Reads (do return f (← r)) bs (f a) := by
  rw [← List.append_nil bs]
  exact first.bind (reads_pure (f a))

theorem Reads.map {r : Reader α} {bs : List UInt8} {a : α} (f : α → β) (first : Reads r bs a) :
    Reads (f <$> r) bs (f a) := by
  rw [map_eq_pure_bind]
  exact first.last f

theorem reads_octets {size : Nat} (o : Octets size) : Reads (octets size) o.bytes o := by
  intro rest
  obtain ⟨bs, rfl⟩ := o
  simp [octets, StateT.run]

theorem reads_number {size n : Nat} (small : n < BigEndian.capacity size) :
    Reads (number size) (BigEndian.bytes size n) n := by
  have field := reads_octets ⟨BigEndian.bytes size n, BigEndian.length_bytes size n⟩
  have value : Reads (number size) (BigEndian.bytes size n)
      (BigEndian.value (BigEndian.bytes size n)) :=
    field.last fun o : Octets size => BigEndian.value o.bytes
  rwa [BigEndian.value_bytes_of_lt small] at value

theorem reads_byte (b : UInt8) : Reads byte [b] b := by
  have number := (@reads_number 1 _ b.toNat_lt).map UInt8.ofNat
  have single : BigEndian.bytes 1 b.toNat = [b] := by simp [BigEndian.bytes]
  rwa [UInt8.ofNat_toNat, single] at number

theorem reads_word16 (w : UInt16) : Reads word16 (BigEndian.bytes 2 w.toNat) w := by
  have number := (@reads_number 2 _ w.toNat_lt).map UInt16.ofNat
  rwa [UInt16.ofNat_toNat] at number

theorem reads_word32 (w : UInt32) : Reads word32 (BigEndian.bytes 4 w.toNat) w := by
  have number := (@reads_number 4 _ w.toNat_lt).map UInt32.ofNat
  rwa [UInt32.ofNat_toNat] at number

theorem reads_word64 (w : UInt64) : Reads word64 (BigEndian.bytes 8 w.toNat) w := by
  have number := (@reads_number 8 _ w.toNat_lt).map UInt64.ofNat
  rwa [UInt64.ofNat_toNat] at number

theorem reads_times {item : Reader α} {encode : α → List UInt8}
    (each : ∀ a, Reads item (encode a) a) {n : Nat} (xs : List α) (length_eq : xs.length = n) :
    Reads (times item n) (xs.flatMap encode) ⟨xs, length_eq⟩ := by
  induction n generalizing xs with
  | zero =>
    obtain rfl : xs = [] := List.length_eq_zero_iff.mp length_eq
    exact reads_pure _
  | succ n ih =>
    obtain ⟨x, xs, rfl⟩ := List.exists_cons_of_length_eq_add_one length_eq
    have rest := ih xs (by simpa using length_eq)
    rw [List.flatMap_cons]
    exact (each x).bind (rest.last _)

end Reader

end WalletConsent
