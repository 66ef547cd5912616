import WalletConsent.Wire.Reads

/-!
All that a reader can do with bytes. It takes a front of them for a value, and then looks at nothing
behind it and would have found any less of it too short; or the bytes are too short; or they are
refused, and stay refused whatever follows. `Parses` says this of every list of bytes, with what the
front has to do with the value; it is proved along the reader, from the last thing read back to the
first.
-/

set_option autoImplicit false

namespace WalletConsent

namespace Reader

variable {α β : Type}

/-- All that reading can come to. A value takes a front of the bytes, which `spells` relates to it;
any less of that front is too short, and nothing behind it counts. -/
inductive Takes (r : Reader α) (spells : List UInt8 → α → Prop) (bs : List UInt8) :
    Except WireFault (α × List UInt8) → Prop
  | value {front rest : List UInt8} {a : α} (split : bs = front ++ rest) (reads : Reads r front a)
      (short : ∀ less, less <+: front → less ≠ front → r.run less = .error .invalidLength)
      (spelled : spells front a) : Takes r spells bs (.ok (a, rest))
  | short : Takes r spells bs (.error .invalidLength)
  | refused (final : ∀ more, r.run (bs ++ more) = .error .invalidEncoding) :
      Takes r spells bs (.error .invalidEncoding)

def Parses (r : Reader α) (spells : List UInt8 → α → Prop) : Prop :=
  ∀ bs, r.Takes spells bs (r.run bs)

variable {r : Reader α} {spells : List UInt8 → α → Prop}

theorem parses_pure {a : α} (spelled : spells [] a) : Parses (pure a) spells := by
  intro bs
  refine .value (List.nil_append bs).symm (reads_pure a) ?_ spelled
  intro less front proper
  exact absurd (List.prefix_nil.mp front) proper

theorem parses_refuse : Parses (throw .invalidEncoding : Reader α) spells := by
  intro bs
  exact .refused fun more => rfl

theorem run_bind_of_ok {next : α → Reader β} {bs rest : List UInt8} {a : α}
    (first : r.run bs = .ok (a, rest)) : (r >>= next).run bs = (next a).run rest := by
  rw [StateT.run_bind, first]
  rfl

theorem run_bind_of_error {next : α → Reader β} {bs : List UInt8} {fault : WireFault}
    (first : r.run bs = .error fault) : (r >>= next).run bs = .error fault := by
  rw [StateT.run_bind, first]
  rfl

theorem Parses.bind {next : α → Reader β} {whole : List UInt8 → β → Prop}
    (first : Parses r fun front a => Parses (next a) fun back b => whole (front ++ back) b) :
    Parses (r >>= next) whole := by
  intro bs
  have taken := first bs
  generalize outcome : r.run bs = read at taken
  cases taken with
  | short =>
    rw [run_bind_of_error outcome]
    exact .short
  | refused final =>
    rw [run_bind_of_error outcome]
    exact .refused fun more => run_bind_of_error (final more)
  | @value front rest a split reads short later =>
    subst split
    have taken := later rest
    rw [run_bind_of_ok outcome]
    generalize (next a).run rest = read at taken
    cases taken with
    | short => exact .short
    | refused final =>
      refine .refused fun more => ?_
      rw [List.append_assoc, run_bind_of_ok (reads _)]
      exact final more
    | @value back rest b split reads' short' spelled =>
      subst split
      refine .value (List.append_assoc ..).symm (reads.bind reads') ?_ spelled
      intro less cut proper
      rcases List.prefix_or_prefix_of_prefix cut (List.prefix_append front back) with
        inside | ⟨more, rfl⟩
      · by_cases all : less = front
        · subst all
          have empty := short' [] (List.nil_prefix) (by rintro rfl; simp at proper)
          have here := reads []
          rw [List.append_nil] at here
          rw [run_bind_of_ok here]
          exact empty
        · exact run_bind_of_error (short less inside all)
      · rw [run_bind_of_ok (reads more)]
        exact short' more ((List.prefix_append_right_inj front).mp cut) (by simpa using proper)

theorem Parses.imp {spells' : List UInt8 → α → Prop} (parses : Parses r spells)
    (weaker : ∀ front a, spells front a → spells' front a) : Parses r spells' := by
  intro bs
  have taken := parses bs
  generalize r.run bs = read at taken ⊢
  cases taken with
  | short => exact .short
  | refused final => exact .refused final
  | value split reads short spelled => exact .value split reads short (weaker _ _ spelled)

theorem Parses.map {f : α → β} {whole : List UInt8 → β → Prop}
    (parses : Parses r fun front a => whole front (f a)) : Parses (f <$> r) whole := by
  rw [map_eq_pure_bind]
  refine Parses.bind (parses.imp ?_)
  intro front a spelled
  exact parses_pure (by rwa [List.append_nil])

theorem parses_octets {size : Nat} {whole : List UInt8 → Octets size → Prop}
    (spelled : ∀ o, whole o.bytes o) : Parses (octets size) whole := by
  intro bs
  by_cases room : size ≤ bs.length
  · let field : Octets size := ⟨bs.take size, by rw [List.length_take]; omega⟩
    have read : (octets size).run bs = .ok (field, bs.drop size) := dif_pos room
    rw [read]
    refine .value (List.take_append_drop size bs).symm (reads_octets field) ?_ (spelled field)
    intro less front proper
    refine dif_neg fun enough => proper ?_
    refine front.eq_of_length_le ?_
    rw [List.length_take]
    omega
  · have read : (octets size).run bs = .error .invalidLength := dif_neg room
    rw [read]
    exact .short

theorem parses_number {size : Nat} {whole : List UInt8 → Nat → Prop}
    (spelled : ∀ n < BigEndian.capacity size, whole (BigEndian.bytes size n) n) :
    Parses (number size) whole := by
  refine Parses.bind (parses_octets fun field => parses_pure ?_)
  have range := BigEndian.value_lt field.bytes
  have same := BigEndian.bytes_value field.bytes
  rw [field.length_bytes] at range same
  rw [List.append_nil]
  have spelled := spelled _ range
  rwa [same] at spelled

theorem parses_word {ω : Type} {size : Nat} {ofNat : Nat → ω} {toNat : ω → Nat}
    {whole : List UInt8 → ω → Prop} (exact : ∀ n < BigEndian.capacity size, toNat (ofNat n) = n)
    (spelled : ∀ w, whole (BigEndian.bytes size (toNat w)) w) :
    Parses (ofNat <$> number size) whole := by
  refine Parses.map (parses_number fun n range => ?_)
  have spelled := spelled (ofNat n)
  rwa [exact n range] at spelled

theorem parses_byte {whole : List UInt8 → UInt8 → Prop} (spelled : ∀ b, whole [b] b) :
    Parses byte whole := by
  refine parses_word (fun n range => UInt8.toNat_ofNat_of_lt range) fun b => ?_
  have single : BigEndian.bytes 1 b.toNat = [b] := by simp [BigEndian.bytes]
  rw [single]
  exact spelled b

theorem parses_word16 {whole : List UInt8 → UInt16 → Prop}
    (spelled : ∀ w, whole (BigEndian.bytes 2 w.toNat) w) : Parses word16 whole :=
  parses_word (fun _ range => UInt16.toNat_ofNat_of_lt range) spelled

theorem parses_word32 {whole : List UInt8 → UInt32 → Prop}
    (spelled : ∀ w, whole (BigEndian.bytes 4 w.toNat) w) : Parses word32 whole :=
  parses_word (fun _ range => UInt32.toNat_ofNat_of_lt range) spelled

theorem parses_word64 {whole : List UInt8 → UInt64 → Prop}
    (spelled : ∀ w, whole (BigEndian.bytes 8 w.toNat) w) : Parses word64 whole :=
  parses_word (fun _ range => UInt64.toNat_ofNat_of_lt range) spelled

theorem parses_times {item : Reader α} {encode : α → List UInt8}
    (each : Parses item fun front a => front = encode a) {n : Nat}
    {whole : List UInt8 → { xs : List α // xs.length = n } → Prop}
    (spelled : ∀ xs, whole (xs.val.flatMap encode) xs) : Parses (times item n) whole := by
  induction n with
  | zero => exact parses_pure (spelled ⟨[], rfl⟩)
  | succ n ih =>
    refine Parses.bind (each.imp ?_)
    rintro front x rfl
    refine Parses.bind (ih fun xs => parses_pure ?_)
    have spelled := spelled ⟨x :: xs.val, by simp [xs.property]⟩
    rwa [List.flatMap_cons, ← List.append_nil (xs.val.flatMap encode)] at spelled

theorem parses_optional {flag : UInt8} {item : Reader α} {whole : List UInt8 → Option α → Prop}
    (absent : flag = 0 → whole [] none)
    (present : flag = 1 → Parses item fun front a => whole front (some a)) :
    Parses (optional flag item) whole := by
  unfold optional
  split
  · exact parses_pure (absent ‹_›)
  · split
    · exact Parses.map (present ‹_›)
    · exact parses_refuse

end Reader
end WalletConsent
