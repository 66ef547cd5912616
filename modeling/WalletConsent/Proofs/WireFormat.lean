import WalletConsent.Request.RoundTrip

/-!
Writing and reading undo each other. That a reader takes what was written whatever follows is in
`Reads`; here are the sizes of what is written, and what follows for encodings: no two values share
one, and none begins another.
-/

set_option autoImplicit false

namespace WalletConsent

namespace Reader

variable {α : Type} {r : Reader α} {bs bs' : List UInt8} {a a' : α}

theorem Reads.consume (reads : Reads r bs a) (rest : List UInt8) :
    r.consume (bs ++ rest) = .ok (a, bs.length) := by
  rw [Reader.consume, reads]
  simp [Except.map]

/-- A reader that looks at nothing behind a value cannot take a front of its bytes for another. -/
theorem Reads.eq_of_front (reads : Reads r bs a) (reads' : Reads r bs' a') (front : bs <+: bs') :
    a = a' := by
  obtain ⟨rest, rfl⟩ := front
  have first := reads rest
  have whole := reads' []
  rw [List.append_nil, first] at whole
  exact congrArg Prod.fst (Except.ok.inj whole)

end Reader

theorem Path.length_encode (p : Path) : p.encode.length = p.encodedLength := by
  have segments : (p.segments.flatMap fun s => BigEndian.bytes 4 s.toNat).length =
      4 * p.segments.length := by
    induction p.segments with
    | nil => rfl
    | cons s segments ih =>
      rw [List.flatMap_cons, List.length_append, BigEndian.length_bytes, ih, List.length_cons]
      omega
  rw [encode, List.length_cons, segments, encodedLength, length, Nat.add_comm]

theorem Path.encodedLength_le (p : Path) : p.encodedLength ≤ 41 := by
  have few : p.segments.length ≤ 10 := p.length_le
  rw [encodedLength, length]
  omega

theorem UtxoRef.length_encode (u : UtxoRef) : u.encode.length = UtxoRef.encodedLength := by
  rw [encode, List.length_append, u.transaction.length_bytes, BigEndian.length_bytes,
    encodedLength]

namespace Request

theorem length_encode (r : Request) : r.encode.length = r.encodedLength := by
  have optional : ∀ staking : Option Path,
      (staking.toList.map Path.encode).flatten.length = staking.elim 0 Path.encodedLength := by
    rintro (_ | path)
    · rfl
    · simp [path.length_encode]
  rw [encode]
  cases r with
  | keyBatch | txInit | txFee => simp [fields, encodedLength]
  | keyExport path | witness path => simp [fields, encodedLength, path.length_encode]
  | txInput utxo | attestUtxo utxo => simp [fields, encodedLength, utxo.length_encode]
  | txOutput amount flags address =>
    simp [fields, encodedLength]
    omega
  | deriveAddress mode spending staking =>
    simp only [fields, encodedLength, List.flatten_cons, List.length_append, List.length_cons,
      List.length_nil, spending.length_encode, optional]
    omega
  | changeOutput amount flags path staking =>
    simp only [fields, encodedLength, List.flatten_cons, List.length_append, List.length_cons,
      List.length_nil, BigEndian.length_bytes, path.length_encode, optional]
    omega

/-- An output to the longest address takes the most bytes. -/
theorem encodedLength_le (r : Request) : r.encodedLength ≤ 138 := by
  have optional : ∀ staking : Option Path, staking.elim 0 Path.encodedLength ≤ 41 := by
    rintro (_ | path)
    · exact Nat.zero_le _
    · exact path.encodedLength_le
  cases r with
  | keyBatch | txInit | txInput | txFee | attestUtxo => exact Nat.le_of_ble_eq_true rfl
  | keyExport path | witness path => exact Nat.le_trans path.encodedLength_le (by decide)
  | deriveAddress mode spending staking | changeOutput amount flags spending staking =>
    have := spending.encodedLength_le
    have := optional staking
    rw [encodedLength]
    omega
  | txOutput amount flags address =>
    have : address.bytes.length ≤ 128 := address.length_le
    rw [encodedLength]
    omega

end Request

/-- Values that are written as they are read: each fills its part of a buffer, is read back from it
whatever follows, and takes no front of the bytes of another. -/
structure RoundTrips {α : Type} (values : α → Prop) (read : Reader α)
    (fields : α → List (List UInt8)) (size : α → Nat) : Prop where
  writes {a : α} (value : values a) (buffer : List UInt8) (room : size a ≤ buffer.length) :
    Wire.write (fields a) buffer = (.ok (size a), (fields a).flatten ++ buffer.drop (size a))
  length {a : α} (value : values a) : (fields a).flatten.length = size a ∧ size a ≤ 138
  reads {a : α} (value : values a) (rest : List UInt8) :
    read.consume ((fields a).flatten ++ rest) = .ok (a, size a)
  apart {a b : α} (left : values a) (right : values b)
      (front : (fields a).flatten <+: (fields b).flatten) : a = b

theorem RoundTrips.of_reads {α : Type} {values : α → Prop} {read : Reader α}
    {fields : α → List (List UInt8)} {size : α → Nat}
    (reads : ∀ a, values a → read.Reads (fields a).flatten a)
    (length : ∀ a, values a → (fields a).flatten.length = size a ∧ size a ≤ 138) :
    RoundTrips values read fields size where
  writes {a} value buffer room := by
    obtain ⟨whole, -⟩ := length a value
    rw [← whole] at room ⊢
    exact Wire.write_of_le room
  length {a} value := length a value
  reads {a} value rest := by
    rw [← (length a value).1]
    exact (reads a value).consume rest
  apart {a b} left right front := (reads a left).eq_of_front (reads b right) front

namespace Request

theorem parse_encode_append (r : Request) (rest : List UInt8) :
    parse r.kind.instruction (r.encode ++ rest) = .ok r := by
  rw [parse, Kind.ofInstruction?_instruction]
  dsimp only
  rw [r.reads_encode rest]
  rfl

/-- Every request of every kind, and every path, is read back from what is written of it. -/
theorem written_reads_back :
    (∀ kind, RoundTrips (fun r : Request => r.kind = kind) (read kind) fields encodedLength) ∧
    (∀ (r : Request) (rest : List UInt8),
      parse r.kind.instruction (r.encode ++ rest) = .ok r) ∧
    RoundTrips (fun _ : Path => True) Path.read (fun p => [p.encode]) Path.encodedLength := by
  refine ⟨?_, parse_encode_append, ?_⟩
  · intro kind
    refine .of_reads ?_ fun r _ => ⟨r.length_encode, r.encodedLength_le⟩
    rintro r rfl
    exact r.reads_encode
  · refine .of_reads ?_ fun p _ => ⟨?_, Nat.le_trans p.encodedLength_le (by decide)⟩
    · intro p _
      rw [List.flatten_singleton]
      exact p.reads_encode
    · rw [List.flatten_singleton]
      exact p.length_encode

end Request

end WalletConsent
