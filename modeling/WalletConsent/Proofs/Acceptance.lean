import WalletConsent.Proofs.Readers
import WalletConsent.Proofs.WireFormat

/-!
What a request, or a path, is decoded from is what it is written as. The readers are gone through
once, each part with the bytes it takes for a value; from that follows all that decoding does with
bytes cut short, bytes with more behind them and bytes it refuses. The one loss is in the flags of
an output, where four bits mean nothing and are dropped.
-/

set_option autoImplicit false

namespace WalletConsent

open Reader

theorem Path.parses_read : Path.read.Parses fun front p => front = p.encode := by
  refine Parses.bind (parses_byte fun count => ?_)
  split
  · refine Parses.bind (parses_times (parses_word32 fun w => rfl) fun segments => parses_pure ?_)
    rw [encode, segments.property, UInt8.ofNat_toNat, List.append_nil, List.singleton_append]
  · exact parses_refuse

theorem UtxoRef.parses_read : UtxoRef.read.Parses fun front u => front = u.encode := by
  refine Parses.bind (parses_octets fun transaction => ?_)
  refine Parses.bind (parses_word32 fun index => parses_pure ?_)
  rw [encode, List.append_nil]

/-- Reading forgets the bits that mean nothing. -/
theorem OutputFlags.toByte_ofByte (b : UInt8) : (ofByte b).toByte = b &&& 0x0f := by
  have all : ∀ n < 256, (ofByte (UInt8.ofNat n)).toByte = UInt8.ofNat n &&& 0x0f := by
    decide +kernel
  simpa using all b.toNat b.toNat_lt

theorem OutputFlags.parses_read {whole : List UInt8 → OutputFlags → Prop}
    (spelled : ∀ b, whole [b] (ofByte b)) : OutputFlags.read.Parses whole :=
  Parses.map (parses_byte spelled)

theorem Address.parses_read {length : Nat} {whole : List UInt8 → Address → Prop}
    (spelled : ∀ a : Address, a.bytes.length = length → whole a.bytes a) :
    (Address.read length).Parses whole := by
  unfold Address.read
  split
  · refine Parses.bind (parses_octets fun field => parses_pure ?_)
    rw [List.append_nil]
    exact spelled ⟨field.bytes, _⟩ field.length_bytes
  · exact parses_refuse

namespace Request

/-- The bytes with those bits cleared that mean nothing, in the byte of the output flags. -/
def Kind.clearUnused : Kind → List UInt8 → List UInt8
  | .txOutput, bs | .changeOutput, bs => bs.modify 8 (· &&& 0x0f)
  | _, bs => bs

theorem parses_staking {flag : UInt8} {whole : List UInt8 → Option Path → Prop}
    (spelled : ∀ staking, flag = presence staking →
      whole (staking.toList.map Path.encode).flatten staking) :
    (optional flag Path.read).Parses whole := by
  refine parses_optional (spelled none) fun present => ?_
  refine Path.parses_read.imp ?_
  rintro front path rfl
  simpa using spelled (some path) present

theorem modify_flags (amount : UInt64) (b : UInt8) (bs : List UInt8) :
    (BigEndian.bytes 8 amount.toNat ++ b :: bs).modify 8 (· &&& 0x0f) =
      BigEndian.bytes 8 amount.toNat ++ (OutputFlags.ofByte b).toByte :: bs := by
  have place := List.modifyTailIdx_add (List.modifyHead (· &&& 0x0f)) 0
    (BigEndian.bytes 8 amount.toNat) (b :: bs)
  rw [BigEndian.length_bytes] at place
  rw [OutputFlags.toByte_ofByte]
  exact place

theorem parses_read (kind : Kind) :
    (read kind).Parses fun front r => r.kind = kind ∧ r.encode = kind.clearUnused front := by
  cases kind <;> unfold read
  case keyBatch =>
    refine Parses.map (parses_word32 fun count => ⟨rfl, ?_⟩)
    simp [encode, fields, Kind.clearUnused]
  case keyExport =>
    refine Parses.map (Path.parses_read.imp ?_)
    rintro front path rfl
    exact ⟨rfl, List.append_nil _⟩
  case deriveAddress =>
    refine Parses.bind (parses_byte fun code => Parses.bind (parses_byte fun flag => ?_))
    cases known : AddressMode.ofCode? code with
    | none => exact parses_refuse
    | some mode =>
      obtain rfl : code = mode.code := AddressMode.ofCode?_eq_some_iff.mp known
      refine Parses.bind (Path.parses_read.imp ?_)
      rintro front spending rfl
      refine Parses.bind (parses_staking ?_)
      rintro staking rfl
      refine parses_pure ⟨rfl, ?_⟩
      simp [encode, fields, Kind.clearUnused]
  case txInit =>
    refine Parses.bind (parses_word32 fun account => Parses.bind (parses_word16 fun inputs => ?_))
    refine Parses.bind (parses_word16 fun outputs => Parses.bind (parses_word16 fun n => ?_))
    refine parses_pure ⟨rfl, ?_⟩
    simp [encode, fields, Kind.clearUnused]
  case txInput =>
    refine Parses.map (UtxoRef.parses_read.imp ?_)
    rintro front utxo rfl
    exact ⟨rfl, List.append_nil _⟩
  case txOutput =>
    refine Parses.bind (parses_word64 fun amount => ?_)
    refine Parses.bind (OutputFlags.parses_read fun b => ?_)
    refine Parses.bind (parses_byte fun length => Parses.bind (Address.parses_read ?_))
    intro address same
    refine parses_pure ⟨rfl, ?_⟩
    have length_eq : UInt8.ofNat address.bytes.length = length := by rw [same, UInt8.ofNat_toNat]
    rw [Kind.clearUnused, List.singleton_append, modify_flags]
    simp [encode, fields, length_eq]
  case changeOutput =>
    refine Parses.bind (parses_word64 fun amount => ?_)
    refine Parses.bind (OutputFlags.parses_read fun b => ?_)
    refine Parses.bind (parses_byte fun flag => Parses.bind (Path.parses_read.imp ?_))
    rintro front path rfl
    refine Parses.bind (parses_staking ?_)
    rintro staking rfl
    refine parses_pure ⟨rfl, ?_⟩
    rw [Kind.clearUnused, List.singleton_append, modify_flags]
    simp [encode, fields]
  case txFee =>
    refine Parses.map (parses_word64 fun fee => ⟨rfl, ?_⟩)
    simp [encode, fields, Kind.clearUnused]
  case witness =>
    refine Parses.map (Path.parses_read.imp ?_)
    rintro front path rfl
    exact ⟨rfl, List.append_nil _⟩
  case attestUtxo =>
    refine Parses.map (UtxoRef.parses_read.imp ?_)
    rintro front utxo rfl
    exact ⟨rfl, List.append_nil _⟩

end Request

namespace Reader

variable {α : Type} {r : Reader α}

theorem consume_of_ok {bs rest : List UInt8} {a : α} (read : r.run bs = .ok (a, rest)) :
    r.consume bs = .ok (a, bs.length - rest.length) := by
  rw [consume, read]
  rfl

theorem consume_of_error {bs : List UInt8} {fault : WireFault} (read : r.run bs = .error fault) :
    r.consume bs = .error fault := by
  rw [consume, read]
  rfl

variable {spells : List UInt8 → α → Prop} {bs : List UInt8}

/-- What is decoded has been read from a front of the bytes. -/
theorem Parses.exists_front {a : α} {n : Nat} (parses : r.Parses spells)
    (decoded : r.consume bs = .ok (a, n)) :
    ∃ front rest, bs = front ++ rest ∧ n = front.length ∧ r.Reads front a ∧
      (∀ less, less <+: front → less ≠ front → r.run less = .error .invalidLength) ∧
      spells front a := by
  have taken := parses bs
  generalize outcome : r.run bs = result at taken
  cases taken with
  | short =>
    rw [consume_of_error outcome] at decoded
    cases decoded
  | refused final =>
    rw [consume_of_error outcome] at decoded
    cases decoded
  | @value front rest a split reads short spelled =>
    subst split
    rw [reads.consume rest] at decoded
    cases decoded
    exact ⟨front, rest, rfl, rfl, reads, short, spelled⟩

theorem Parses.consume_refused (parses : r.Parses spells)
    (refused : r.consume bs = .error .invalidEncoding) (more : List UInt8) :
    r.consume (bs ++ more) = .error .invalidEncoding := by
  have taken := parses bs
  generalize outcome : r.run bs = result at taken
  cases taken with
  | short =>
    rw [consume_of_error outcome] at refused
    cases refused
  | value split reads short spelled =>
    rw [consume_of_ok outcome] at refused
    cases refused
  | refused final => exact consume_of_error (final more)

end Reader

/-- Values that are decoded from just the bytes that they are written as, once the bits that mean
nothing are cleared. -/
structure DecodesAsWritten {α : Type} (values : α → Prop)
    (decode : List UInt8 → Except WireFault (α × Nat)) (encode : α → List UInt8)
    (size : α → Nat) (clear : α → List UInt8 → List UInt8) : Prop where
  value {bs : List UInt8} {a : α} {n : Nat} (decoded : decode bs = .ok (a, n)) :
    values a ∧ n = size a ∧ n ≤ bs.length
  written {bs : List UInt8} {a : α} {n : Nat} (decoded : decode bs = .ok (a, n)) :
    encode a = clear a (bs.take n)
  /-- What follows does not count. -/
  extended {bs : List UInt8} {a : α} {n : Nat} (decoded : decode bs = .ok (a, n))
      (more : List UInt8) : decode (bs ++ more) = .ok (a, n)
  /-- Nothing can be left out. -/
  cut {bs : List UInt8} {a : α} {n : Nat} (decoded : decode bs = .ok (a, n)) {less : List UInt8}
      (front : less <+: bs.take n) (proper : less ≠ bs.take n) :
    decode less = .error .invalidLength
  /-- A refusal is final. -/
  refused {bs : List UInt8} (refused : decode bs = .error .invalidEncoding) (more : List UInt8) :
    decode (bs ++ more) = .error .invalidEncoding

/-- A decoder that refuses whatever it is given decodes nothing. -/
theorem DecodesAsWritten.of_refused {α : Type} {values : α → Prop}
    {decode : List UInt8 → Except WireFault (α × Nat)} {encode : α → List UInt8}
    {size : α → Nat} {clear : α → List UInt8 → List UInt8}
    (refuses : ∀ bs, decode bs = .error .invalidEncoding) :
    DecodesAsWritten values decode encode size clear := by
  have never : ∀ {bs a n}, decode bs ≠ .ok (a, n) := by
    intro bs a n decoded
    rw [refuses] at decoded
    cases decoded
  exact ⟨fun decoded => absurd decoded never, fun decoded => absurd decoded never,
    fun decoded => absurd decoded never, fun decoded => absurd decoded never,
    fun _ more => refuses _⟩

theorem DecodesAsWritten.of_parses {α : Type} {values : α → Prop} {read : Reader α}
    {encode : α → List UInt8} {size : α → Nat} {clear : α → List UInt8 → List UInt8}
    (parses : read.Parses fun front a => values a ∧ encode a = clear a front)
    (length : ∀ a, (encode a).length = size a)
    (keeps : ∀ a bs, (clear a bs).length = bs.length) :
    DecodesAsWritten values read.consume encode size clear := by
  constructor
  case value =>
    intro bs a n decoded
    obtain ⟨front, rest, rfl, rfl, -, -, value, written⟩ := parses.exists_front decoded
    refine ⟨value, ?_, ?_⟩
    · rw [← length, written, keeps]
    · rw [List.length_append]
      exact Nat.le_add_right ..
  case written =>
    intro bs a n decoded
    obtain ⟨front, rest, rfl, rfl, -, -, -, written⟩ := parses.exists_front decoded
    rw [written, List.take_left]
  case extended =>
    intro bs a n decoded more
    obtain ⟨front, rest, rfl, rfl, reads, -⟩ := parses.exists_front decoded
    rw [List.append_assoc]
    exact reads.consume _
  case cut =>
    intro bs a n decoded less cut proper
    obtain ⟨front, rest, rfl, rfl, -, short, -⟩ := parses.exists_front decoded
    rw [List.take_left] at cut proper
    exact consume_of_error (short less cut proper)
  case refused =>
    intro bs refused more
    exact parses.consume_refused refused more

namespace Request

theorem Kind.length_clearUnused (kind : Kind) (bs : List UInt8) :
    (kind.clearUnused bs).length = bs.length := by
  cases kind <;> simp [clearUnused]

theorem Kind.ofInstruction?_eq_some_iff {ins : UInt8} {kind : Kind} :
    ofInstruction? ins = some kind ↔ kind.instruction = ins := by
  constructor
  · intro found
    simpa using List.find?_some found
  · rintro rfl
    exact ofInstruction?_instruction kind

theorem decodesAsWritten (kind : Kind) :
    DecodesAsWritten (fun r : Request => r.kind = kind) (read kind).consume encode encodedLength
      fun r => r.kind.clearUnused := by
  refine .of_parses ((parses_read kind).imp ?_) length_encode fun r => r.kind.length_clearUnused
  rintro front r ⟨rfl, written⟩
  exact ⟨rfl, written⟩

/-- A request of a known kind takes as many bytes as are read for it. -/
theorem map_parse_eq_consume (kind : Kind) (bs : List UInt8) :
    ((parse kind.instruction bs).map fun r => (r, r.encodedLength)) = (read kind).consume bs := by
  rw [parse, Kind.ofInstruction?_instruction]
  dsimp only
  cases outcome : (read kind).run bs with
  | error fault => exact (consume_of_error outcome).symm
  | ok taken =>
    obtain ⟨r, rest⟩ := taken
    have decoded := consume_of_ok outcome
    obtain ⟨-, size, -⟩ := (decodesAsWritten kind).value decoded
    rw [decoded, size]
    rfl

theorem parse_decodesAsWritten (ins : UInt8) :
    DecodesAsWritten (fun r : Request => r.kind.instruction = ins)
      (fun bs => (parse ins bs).map fun r => (r, r.encodedLength)) encode encodedLength
      fun r => r.kind.clearUnused := by
  cases known : Kind.ofInstruction? ins with
  | none =>
    refine .of_refused fun bs => ?_
    rw [parse, known]
    rfl
  | some kind =>
    obtain rfl := Kind.ofInstruction?_eq_some_iff.mp known
    rw [funext (map_parse_eq_consume kind)]
    obtain ⟨value, written, extended, cut, refused⟩ := decodesAsWritten kind
    refine ⟨fun decoded => ?_, written, extended, cut, refused⟩
    obtain ⟨rfl, rest⟩ := value decoded
    exact ⟨rfl, rest⟩

/-- Readers take for a value just what is written of it, but for bits that mean nothing: for every
kind of request, for paths, and for requests under every instruction byte, known or not. -/
theorem decoded_as_written :
    (∀ kind, DecodesAsWritten (fun r : Request => r.kind = kind) (read kind).consume encode
      encodedLength fun r => r.kind.clearUnused) ∧
    (DecodesAsWritten (fun _ : Path => True) Path.read.consume Path.encode Path.encodedLength
      fun _ bs => bs) ∧
    ∀ ins, DecodesAsWritten (fun r : Request => r.kind.instruction = ins)
      (fun bs => (parse ins bs).map fun r => (r, r.encodedLength)) encode encodedLength
      fun r => r.kind.clearUnused := by
  refine ⟨decodesAsWritten, ?_, parse_decodesAsWritten⟩
  refine .of_parses (Path.parses_read.imp ?_) Path.length_encode fun _ _ => rfl
  rintro front path rfl
  exact ⟨trivial, rfl⟩

end Request

end WalletConsent
