import Mathlib.Algebra.BigOperators.Group.List.Basic
import WalletConsent.Proofs.WireFormat
import WalletConsent.Request.Encoder

/-!
Encoders keep to their buffers. What an encoder leaves in a buffer is as many whole fields as there
is room for, and behind them what was there before; it succeeds exactly if the buffer has room for
all, and no place outside of the buffer is written to.

An encoder is followed part by part: `Encoder.Proceeds` is what is left of it behind a front that
has been written, with room made sure of for a block, and there is one rule for each thing that an
encoder can do next.
-/

set_option autoImplicit false

namespace WalletConsent

namespace Wire

/-- How writing fields ends behind a front that has been written. -/
def outcome (front : List UInt8) (fields : List (List UInt8)) (rest : List UInt8) :
    Except Stop Nat × List UInt8 :=
  (((write fields rest).1.map (front.length + ·)).mapError .refused, front ++ (write fields rest).2)

theorem outcome_nil (front rest : List UInt8) :
    outcome front [] rest = (.ok front.length, front ++ rest) := rfl

theorem outcome_cons_of_le {field rest : List UInt8} (front : List UInt8)
    (fields : List (List UInt8)) (fits : field.length ≤ rest.length) :
    outcome front (field :: fields) rest =
      outcome (front ++ field) fields (rest.drop field.length) := by
  unfold outcome
  rw [write, if_pos fits]
  generalize write fields (rest.drop field.length) = written
  obtain ⟨result, after⟩ := written
  cases result with
  | error fault => simp [Except.map, Except.mapError]
  | ok n => simp [Except.map, Except.mapError, Nat.add_assoc]

theorem outcome_cons_of_lt {field rest : List UInt8} (front : List UInt8)
    (fields : List (List UInt8)) (short : rest.length < field.length) :
    outcome front (field :: fields) rest = (.error (.refused .invalidLength), front ++ rest) := by
  unfold outcome
  rw [write, if_neg (Nat.not_le_of_lt short)]
  rfl

theorem outcome_of_no_front (fields : List (List UInt8)) (rest : List UInt8) :
    outcome [] fields rest =
      ((write fields rest).1.mapError .refused, (write fields rest).2) := by
  unfold outcome
  cases (write fields rest).1 with
  | error fault => rfl
  | ok n => simp [Except.map, Except.mapError]

namespace Encoder

/-- Writes fields one after the other, as far as there is room. -/
def Writes (e : Encoder Nat) (fields : List (List UInt8)) : Prop :=
  ∀ buffer, e.on buffer = outcome [] fields buffer

/-- The part of an encoder behind a front that has been written: it writes a block that there is
room for, and then fields as far as there is room. -/
def Proceeds (e : Encoder Nat) (front block : List UInt8) (fields : List (List UInt8)) : Prop :=
  ∀ rest, block.length ≤ rest.length →
    e.on (front ++ rest) = outcome (front ++ block) fields (rest.drop block.length)

/-- An encoder of single bytes, which puts its byte to the front of a buffer that has room. -/
def WritesByte (byte : UInt8 → Encoder Nat) : Prop :=
  ∀ b old rest, (byte b).on (old :: rest) = (.ok 1, b :: rest)

variable {e : Encoder Nat} {front block field : List UInt8} {fields : List (List UInt8)}
  {place size : Nat}

theorem proceeds_return (here : place = front.length) : Proceeds (pure place) front [] [] := by
  intro rest _
  rw [on_pure, List.append_nil, outcome_nil, here]
  rfl

theorem on_put {bytes rest : List UInt8} (room : bytes.length ≤ rest.length) :
    (put front.length bytes).on (front ++ rest) =
      (.ok (), front ++ bytes ++ rest.drop bytes.length) := by
  have inside : front.length + bytes.length ≤ (front ++ rest).length := by
    rw [List.length_append]
    omega
  refine (if_pos inside).trans ?_
  rw [List.take_left, ← List.drop_drop, List.drop_left]

theorem proceeds_put (bytes : List UInt8) (here : place = front.length)
    (later : Proceeds e (front ++ bytes) block fields) :
    Proceeds (do put place bytes; e) front (bytes ++ block) fields := by
  intro rest room
  rw [List.length_append] at room
  have left : block.length ≤ (rest.drop bytes.length).length := by
    rw [List.length_drop]
    omega
  rw [on_bind, here, on_put (by omega)]
  dsimp only
  rw [later _ left, List.drop_drop, List.append_assoc, List.length_append]

theorem on_behind (e : Encoder Nat) (front rest : List UInt8) :
    (behind front.length e).on (front ++ rest) = ((e.on rest).1, front ++ (e.on rest).2) := by
  have inside : front.length ≤ (front ++ rest).length := by simp
  refine (if_pos inside).trans ?_
  rw [List.take_left, List.drop_left]
  rfl

theorem proceeds_byte {byte : UInt8 → Encoder Nat} (plain : WritesByte byte) {b : UInt8}
    (here : place = front.length) (later : Proceeds e (front ++ [b]) block fields) :
    Proceeds (do let _ ← behind place (byte b); e) front (b :: block) fields := by
  intro rest room
  cases rest with
  | nil => cases room
  | cons old rest =>
    rw [on_bind, here, on_behind, plain]
    have whole := later rest (Nat.le_of_succ_le_succ room)
    simpa using whole

theorem proceeds_behind {part : Encoder Nat} {next : Nat → Encoder Nat}
    (writes : part.Writes [field]) (here : place = front.length)
    (later : Proceeds (next field.length) (front ++ field) [] fields) :
    Proceeds (behind place part >>= next) front [] (field :: fields) := by
  intro rest _
  rw [on_bind, here, on_behind, writes, List.append_nil]
  by_cases fits : field.length ≤ rest.length
  · have whole := later (rest.drop field.length) (Nat.zero_le _)
    rw [outcome_cons_of_le _ _ fits, outcome_nil, List.length_nil, List.drop_zero,
      outcome_cons_of_le _ _ fits]
    rw [List.append_nil] at whole
    simpa using whole
  · rw [outcome_cons_of_lt _ _ (Nat.lt_of_not_le fits), List.length_nil, List.drop_zero,
      outcome_cons_of_lt _ _ (Nat.lt_of_not_le fits)]
    rfl

/-- Four bytes for each segment, one behind the other. -/
theorem proceeds_words (segments : List Segment) {i : Nat} (here : front.length = 1 + 4 * i)
    (later : Proceeds e (front ++ segments.flatMap fun s => BigEndian.bytes 4 s.toNat) block
      fields) :
    Proceeds
      (do
        (segments.zipIdx i).forM fun (s, i) => put (1 + 4 * i) (BigEndian.bytes 4 s.toNat)
        e)
      front ((segments.flatMap fun s => BigEndian.bytes 4 s.toNat) ++ block) fields := by
  induction segments generalizing front i with
  | nil =>
    rw [List.flatMap_nil, List.append_nil] at later
    exact later
  | cons s segments ih =>
    rw [List.flatMap_cons, List.append_assoc]
    rw [List.flatMap_cons, ← List.append_assoc] at later
    have next : (front ++ BigEndian.bytes 4 s.toNat).length = 1 + 4 * (i + 1) := by
      rw [List.length_append, BigEndian.length_bytes, here]
      omega
    -- The place of a word follows from its number alone, and so does that of the next one.
    have words := proceeds_put _ here.symm (ih next later)
    rw [← bind_assoc] at words
    exact words

theorem on_room (size : Nat) (buffer : List UInt8) :
    (room size).on buffer =
      if buffer.length < size then (.error (.refused .invalidLength), buffer)
      else (.ok (), buffer) := rfl

/-- Room is asked for once, for the first field. -/
theorem writes_of_room (whole : size = block.length) (proceeds : Proceeds e [] block fields) :
    Writes (do room size; e) (block :: fields) := by
  intro buffer
  rw [on_bind, on_room, whole]
  by_cases short : buffer.length < block.length
  · rw [if_pos short, outcome_cons_of_lt _ _ short]
    rfl
  · have room : block.length ≤ buffer.length := Nat.le_of_not_lt short
    rw [if_neg short, outcome_cons_of_le _ _ room]
    exact proceeds buffer room

end Encoder

end Wire

open Wire Encoder

theorem Path.writes_encoder (p : Path) : p.encoder.Writes [p.encode] := by
  have whole : p.encodedLength = p.encode.length := p.length_encode.symm
  have segments : p.encode =
      [UInt8.ofNat p.length] ++
        ((p.segments.flatMap fun s => BigEndian.bytes 4 s.toNat) ++ []) := by
    rw [List.append_nil]
    rfl
  refine writes_of_room whole ?_
  rw [whole, segments]
  refine proceeds_put _ rfl (proceeds_words p.segments rfl (proceeds_return ?_))
  rw [List.nil_append, List.append_nil]

theorem UtxoRef.writes_encoder (u : UtxoRef) : u.encoder.Writes [u.encode] := by
  have whole : encodedLength = u.encode.length := u.length_encode.symm
  have hash : u.transaction.bytes.length = 32 := u.transaction.length_bytes
  have parts : u.encode = u.transaction.bytes ++ (BigEndian.bytes 4 u.index.toNat ++ []) := by
    rw [List.append_nil]
    rfl
  refine writes_of_room whole ?_
  rw [parts]
  refine proceeds_put _ rfl (proceeds_put _ hash.symm (proceeds_return ?_))
  rw [List.nil_append, List.length_append, hash, BigEndian.length_bytes]
  rfl

namespace Request

/-- Paths at the end of a request, the second one optional. -/
theorem proceeds_paths {front : List UInt8} {place : Nat} (path : Path) (staking : Option Path)
    (here : place = front.length) :
    Proceeds
      (do
        let n := place + (← behind place path.encoder)
        match staking with
        | none => return n
        | some path => return n + (← behind n path.encoder))
      front [] (path.encode :: staking.toList.map Path.encode) := by
  have behind_path : place + path.encode.length = (front ++ path.encode).length := by
    rw [List.length_append, here]
  refine proceeds_behind path.writes_encoder here ?_
  cases staking with
  | none => exact proceeds_return behind_path
  | some second =>
    refine proceeds_behind second.writes_encoder behind_path (proceeds_return ?_)
    rw [List.length_append, behind_path]

theorem writes_encoder {byte : UInt8 → Encoder Nat} (plain : WritesByte byte) (r : Request) :
    (r.encoder byte).Writes r.fields := by
  -- A field is read as the parts put one after the other, with nothing behind the last.
  cases r with
  | keyBatch count =>
    rw [fields, ← List.append_nil (BigEndian.bytes 4 count.toNat)]
    exact writes_of_room rfl (proceeds_put _ rfl (proceeds_return rfl))
  | keyExport path | witness path => exact path.writes_encoder
  | deriveAddress mode spending staking =>
    exact writes_of_room rfl (proceeds_put [mode.code] rfl
      (proceeds_put [presence staking] rfl (proceeds_paths spending staking rfl)))
  | txInit account inputs outputs witnesses =>
    have parts : fields (txInit account inputs outputs witnesses) =
        [BigEndian.bytes 4 account.toNat ++ (BigEndian.bytes 2 inputs.toNat ++
          (BigEndian.bytes 2 outputs.toNat ++ (BigEndian.bytes 2 witnesses.toNat ++ [])))] := by
      simp [fields]
    rw [parts]
    exact writes_of_room rfl (proceeds_put _ rfl (proceeds_put _ rfl (proceeds_put _ rfl
      (proceeds_put _ rfl (proceeds_return rfl)))))
  | txInput utxo | attestUtxo utxo => exact utxo.writes_encoder
  | txOutput amount flags address =>
    have parts : fields (txOutput amount flags address) =
        [BigEndian.bytes 8 amount.toNat ++ (flags.toByte ::
          ([UInt8.ofNat address.bytes.length] ++ (address.bytes ++ [])))] := by
      simp [fields]
    have whole : 10 + address.bytes.length = (BigEndian.bytes 8 amount.toNat ++ (flags.toByte ::
        ([UInt8.ofNat address.bytes.length] ++ (address.bytes ++ [])))).length := by
      simp
      omega
    rw [parts]
    refine writes_of_room whole (proceeds_put _ rfl (proceeds_byte plain rfl
      (proceeds_put _ rfl (proceeds_put _ rfl (proceeds_return ?_)))))
    simp
    omega
  | changeOutput amount flags path staking =>
    exact writes_of_room rfl (proceeds_put _ rfl (proceeds_byte plain rfl
      (proceeds_put [presence staking] rfl (proceeds_paths path staking rfl))))
  | txFee fee =>
    rw [fields, ← List.append_nil (BigEndian.bytes 8 fee.toNat)]
    exact writes_of_room rfl (proceeds_put _ rfl (proceeds_return rfl))

end Request

/-- What an encoder of so many bytes in all does to a buffer. -/
structure KeepsToBuffer (e : Encoder Nat) (fields : List (List UInt8)) (size : Nat) : Prop where
  length : fields.flatten.length = size
  ok_iff (buffer : List UInt8) : (e.on buffer).1 = .ok size ↔ size ≤ buffer.length
  refused {buffer : List UInt8} (short : buffer.length < size) :
    (e.on buffer).1 = .error (.refused .invalidLength)
  inside (buffer : List UInt8) : (e.on buffer).1 ≠ .error .outside
  written {buffer : List UInt8} (room : size ≤ buffer.length) :
    (e.on buffer).2 = fields.flatten.take size ++ buffer.drop size
  /-- The field after those that are written has no room. -/
  begun {buffer : List UInt8} (short : buffer.length < size) :
    ∃ n < fields.length, ∃ k, (fields.take n).flatten.length = k ∧ k ≤ buffer.length ∧ k < size ∧
      buffer.length < (fields.take (n + 1)).flatten.length ∧
      (e.on buffer).2 = fields.flatten.take k ++ buffer.drop k
  /-- Writing the fields one after the other comes to the same. -/
  agrees (buffer : List UInt8) :
    e.on buffer = ((write fields buffer).1.mapError .refused, (write fields buffer).2)

theorem Wire.Encoder.Writes.keepsToBuffer {e : Encoder Nat} {fields : List (List UInt8)}
    {size : Nat} (writes : e.Writes fields) (length : fields.flatten.length = size) :
    KeepsToBuffer e fields size := by
  have agrees buffer := (writes buffer).trans (outcome_of_no_front fields buffer)
  have fits {buffer : List UInt8} (room : size ≤ buffer.length) :
      e.on buffer = (.ok size, fields.flatten ++ buffer.drop size) := by
    rw [agrees, ← length, write_of_le (length ▸ room)]
    rfl
  have refused {buffer : List UInt8} (short : buffer.length < size) :
      (e.on buffer).1 = .error (.refused .invalidLength) := by
    obtain ⟨n, -, -, -, written⟩ := write_of_lt (length ▸ short)
    rw [agrees, written]
    rfl
  refine ⟨length, ?_, refused, ?_, ?_, ?_, agrees⟩
  · intro buffer
    refine ⟨fun ok => Nat.le_of_not_lt fun short => ?_, fun room => by rw [fits room]⟩
    rw [refused short] at ok
    cases ok
  · intro buffer outside
    by_cases room : size ≤ buffer.length
    · rw [fits room] at outside
      cases outside
    · rw [refused (Nat.lt_of_not_le room)] at outside
      cases outside
  · intro buffer room
    rw [fits room, ← length, List.take_length]
  · intro buffer short
    obtain ⟨n, before, room, full, written⟩ := write_of_lt (length ▸ short)
    refine ⟨n, before, _, rfl, room, Nat.lt_of_le_of_lt room short, full, ?_⟩
    rw [agrees, written, List.length_flatten, List.map_take, List.take_sum_flatten]

theorem Wire.Encoder.writesByte_single : WritesByte single := fun _ _ _ => rfl

/-- All that is taken from an encoder of single bytes is that it writes the byte. -/
theorem Request.encoders_keep_to_buffer {byte : UInt8 → Encoder Nat} (plain : WritesByte byte) :
    (∀ r : Request, KeepsToBuffer (r.encoder byte) r.fields r.encodedLength) ∧
    (∀ p : Path, KeepsToBuffer p.encoder [p.encode] p.encodedLength) := by
  refine ⟨fun r => ?_, fun p => ?_⟩
  · exact (r.writes_encoder plain).keepsToBuffer r.length_encode
  · apply p.writes_encoder.keepsToBuffer
    rw [List.flatten_singleton]
    exact p.length_encode

/-- The buffer ends within the staking path of a change output. -/
theorem Request.encoders_keep_to_buffer_of_stakedChange :
    let path : Path := ⟨[0x8000002c, 0x80000717, 0x80000000, 1, 7], by decide⟩
    let staking : Path := ⟨[0x8000002c, 0x80000717, 0x80000000, 2, 0], by decide⟩
    let r : Request := .changeOutput 1000000 ⟨true, false, false, false⟩ path (some staking)
    let buffer := List.replicate 40 0xff
    WritesByte single ∧ KeepsToBuffer (r.encoder single) r.fields 52 ∧
      (r.encoder single).on buffer =
        (.error (.refused .invalidLength), r.encode.take 31 ++ buffer.drop 31) := by
  intro path staking r buffer
  have keeps : KeepsToBuffer (r.encoder single) r.fields 52 :=
    (encoders_keep_to_buffer writesByte_single).1 r
  refine ⟨writesByte_single, keeps, ?_⟩
  rw [keeps.agrees]
  rfl

end WalletConsent
