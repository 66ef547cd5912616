import WalletConsent.Request.Decoding
import WalletConsent.Request.Encoding
import WalletConsent.Wire.Reads

/-!
Reading undoes writing: every request, and every path, is read back from its own bytes, and
nothing of what follows them is touched.
-/

set_option autoImplicit false

namespace WalletConsent

open Reader

theorem Path.reads_encode (p : Path) : Reads Path.read p.encode p := by
  obtain ⟨segments, length_le⟩ := p
  have count : (UInt8.ofNat segments.length).toNat = segments.length := by
    have : segments.length ≤ 10 := length_le
    rw [UInt8.toNat_ofNat']
    omega
  unfold Path.read Path.encode
  rw [← List.singleton_append]
  refine (reads_byte _).bind ?_
  rw [dif_pos (Nat.le_trans (Nat.le_of_eq count) length_le)]
  exact (reads_times reads_word32 segments count.symm).last fun read =>
    Path.mk read.val (Nat.le_trans (Nat.le_of_eq read.property)
      (Nat.le_trans (Nat.le_of_eq count) length_le))

theorem UtxoRef.reads_encode (u : UtxoRef) : Reads UtxoRef.read u.encode u := by
  exact (reads_octets u.transaction).bind ((reads_word32 u.index).last (UtxoRef.mk u.transaction))

theorem OutputFlags.reads_toByte (f : OutputFlags) : Reads OutputFlags.read [f.toByte] f := by
  have byte := (reads_byte f.toByte).map OutputFlags.ofByte
  rwa [OutputFlags.ofByte_toByte] at byte

theorem Address.reads_bytes (a : Address) :
    Reads (Address.read (UInt8.ofNat a.bytes.length).toNat) a.bytes a := by
  have length : (UInt8.ofNat a.bytes.length).toNat = a.bytes.length := by
    have : a.bytes.length ≤ 128 := a.length_le
    rw [UInt8.toNat_ofNat']
    omega
  rw [length]
  unfold Address.read
  rw [dif_pos a.length_le]
  exact (reads_octets ⟨a.bytes, rfl⟩).last fun field =>
    Address.mk field.bytes (Nat.le_trans (Nat.le_of_eq field.length_bytes) a.length_le)

namespace Request

theorem reads_staking (staking : Option Path) :
    Reads (optional (presence staking) Path.read) (staking.toList.map Path.encode).flatten
      staking := by
  cases staking with
  | none => exact reads_pure none
  | some path =>
    rw [Option.toList_some, List.map_singleton, List.flatten_singleton]
    exact path.reads_encode.map some

theorem reads_encode (r : Request) : Reads (read r.kind) r.encode r := by
  cases r <;> simp only [kind, read, encode, fields, List.flatten_cons, List.flatten_nil,
    List.append_nil]
  case keyBatch count => exact (reads_word32 count).map keyBatch
  case keyExport path => exact path.reads_encode.map keyExport
  case deriveAddress mode spending staking =>
    have known : AddressMode.ofCode? mode.code = some mode :=
      AddressMode.ofCode?_eq_some_iff.mpr rfl
    refine (reads_byte mode.code).bind ((reads_byte (presence staking)).bind ?_)
    rw [known]
    exact spending.reads_encode.bind
      ((reads_staking staking).last (deriveAddress mode spending))
  case txInit account inputs outputs witnesses =>
    rw [List.append_assoc, List.append_assoc]
    exact (reads_word32 account).bind ((reads_word16 inputs).bind ((reads_word16 outputs).bind
      ((reads_word16 witnesses).last (txInit account inputs outputs))))
  case txInput utxo => exact utxo.reads_encode.map txInput
  case txOutput amount flags address =>
    exact (reads_word64 amount).bind (flags.reads_toByte.bind
      ((reads_byte (UInt8.ofNat address.bytes.length)).bind
        (address.reads_bytes.last (txOutput amount flags))))
  case changeOutput amount flags path staking =>
    rw [List.append_assoc]
    exact (reads_word64 amount).bind (flags.reads_toByte.bind
      ((reads_byte (presence staking)).bind (path.reads_encode.bind
        ((reads_staking staking).last (changeOutput amount flags path)))))
  case txFee fee => exact (reads_word64 fee).map txFee
  case witness path => exact path.reads_encode.map witness
  case attestUtxo utxo => exact utxo.reads_encode.map attestUtxo

end Request

end WalletConsent
