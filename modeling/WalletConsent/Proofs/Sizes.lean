import WalletConsent.Flow.Script

/-!
How many bytes the texts of a flow take. Every text that a flow puts together from a path, an
amount, a hash or an address is ASCII, so its size is its length, and its length is within the
limit of the fact that holds it.
-/

set_option autoImplicit false

namespace WalletConsent

/-- Every character takes one byte. -/
def OneByteEach (cs : List Char) : Prop := ∀ c ∈ cs, c.utf8Size = 1

namespace OneByteEach

theorem nil : OneByteEach [] := by
  intro c membership
  cases membership

theorem cons {c : Char} {cs : List Char} (head : c.utf8Size = 1) (tail : OneByteEach cs) :
    OneByteEach (c :: cs) := by
  intro x membership
  rcases List.mem_cons.mp membership with rfl | membership
  · exact head
  · exact tail x membership

theorem append {cs ds : List Char} (front : OneByteEach cs) (back : OneByteEach ds) :
    OneByteEach (cs ++ ds) := by
  intro c membership
  rcases List.mem_append.mp membership with membership | membership
  · exact front c membership
  · exact back c membership

theorem flatMap {α : Type} {xs : List α} {f : α → List Char} (each : ∀ x, OneByteEach (f x)) :
    OneByteEach (xs.flatMap f) := by
  intro c membership
  obtain ⟨x, -, inside⟩ := List.mem_flatMap.mp membership
  exact each x c inside

theorem utf8ByteSize_ofList {cs : List Char} (plain : OneByteEach cs) :
    (String.ofList cs).utf8ByteSize = cs.length := by
  induction cs with
  | nil => rfl
  | cons c cs ih =>
    have head : (String.ofList [c]).utf8ByteSize = 1 := by
      rw [← String.singleton_eq_ofList, String.utf8ByteSize_singleton]
      exact plain c (by simp)
    have tail := ih fun d membership => plain d (by simp [membership])
    rw [← List.singleton_append, String.ofList_append, String.utf8ByteSize_append, head, tail,
      List.length_append, List.length_singleton]

theorem of_all {cs : List Char} (each : cs.all (fun c => c.utf8Size == 1) = true) :
    OneByteEach cs := by
  intro c membership
  exact eq_of_beq (List.all_eq_true.mp each c membership)

theorem of_isDigit {cs : List Char} (digits : ∀ c ∈ cs, c.isDigit) : OneByteEach cs := by
  intro c membership
  have digit := digits c membership
  simp only [Char.isDigit, Bool.and_eq_true, decide_eq_true_eq] at digit
  have small : c.val ≤ 0x7f := UInt32.le_trans digit.2 (by decide)
  simp [Char.utf8Size, small]

end OneByteEach

theorem oneByteEach_toDigits (n : Nat) : OneByteEach (Nat.toDigits 10 n) :=
  .of_isDigit fun _ membership => Nat.isDigit_of_mem_toDigits (by decide) (by decide) membership

theorem not_mem_toDigits {c : Char} (n : Nat) (other : c.isDigit = false) :
    c ∉ Nat.toDigits 10 n := by
  intro among
  rw [Nat.isDigit_of_mem_toDigits (by decide) (by decide) among] at other
  cases other

theorem length_toDigits_word32 (w : UInt32) : (Nat.toDigits 10 w.toNat).length ≤ 10 := by
  apply (Nat.length_toDigits_le_iff (by decide) (by decide)).mpr
  have := w.toNat_lt
  omega

theorem length_toDigits_word64 (w : UInt64) : (Nat.toDigits 10 w.toNat).length ≤ 20 := by
  apply (Nat.length_toDigits_le_iff (by decide) (by decide)).mpr
  have := w.toNat_lt
  omega

theorem Hex.oneByteEach_ofBytes (bs : List UInt8) : OneByteEach (ofBytes bs) := by
  have digit : ∀ n < 16, (Nat.digitChar n).utf8Size = 1 := by decide
  intro c among
  obtain ⟨n, small, rfl⟩ := exists_digit_of_mem_ofBytes among
  exact digit n small

theorem Segment.index_lt (s : Segment) : (index s).toNat < hardenedFlag.toNat := by
  have range := s.toNat_lt
  have flag : hardenedFlag.toNat = 0x80000000 := by decide
  by_cases hardened : hardenedFlag ≤ s
  · have floor := UInt32.le_iff_toNat_le.mp hardened
    rw [index, isHardened, if_pos (decide_eq_true hardened),
      UInt32.toNat_sub_of_le _ _ hardened]
    omega
  · rw [index, isHardened, if_neg (by simpa using hardened)]
    exact Nat.lt_of_not_le fun floor => hardened (UInt32.le_iff_toNat_le.mpr floor)

theorem Segment.oneByteEach_text (s : Segment) : OneByteEach s.text := by
  refine .append (oneByteEach_toDigits _) ?_
  split
  · exact .cons (by decide) .nil
  · exact .nil

theorem Segment.length_text_le (s : Segment) : s.text.length ≤ 11 := by
  have digits : (Nat.toDigits 10 (index s).toNat).length ≤ 10 :=
    (Nat.length_toDigits_le_iff (by decide) (by decide)).mpr
      (Nat.lt_trans s.index_lt (by decide))
  rw [text, List.length_append]
  split <;> simp <;> omega

namespace Path

theorem oneByteEach_text (p : Path) : OneByteEach p.text :=
  .cons (by decide) (.flatMap fun s => .cons (by decide) s.oneByteEach_text)

/-- Ten hardened segments of ten digits each make the longest path. -/
theorem length_text_le (p : Path) : p.text.length ≤ 121 := by
  have segments : ∀ segments : List Segment,
      (segments.flatMap fun s => '/' :: s.text).length ≤ 12 * segments.length := by
    intro segments
    induction segments with
    | nil => simp
    | cons s segments ih =>
      have one := s.length_text_le
      rw [List.flatMap_cons, List.length_append, List.length_cons, List.length_cons]
      omega
  have whole := segments p.segments
  have few : p.segments.length ≤ 10 := p.length_le
  rw [text, List.length_cons]
  omega

theorem utf8ByteSize_toString_le (p : Path) : (toString p).utf8ByteSize ≤ Fact.maxValueSize := by
  have size : (toString p).utf8ByteSize = p.text.length :=
    p.oneByteEach_text.utf8ByteSize_ofList
  rw [size]
  exact Nat.le_trans p.length_text_le (by decide)

end Path

namespace Amount

def Piece.chars : Piece → List Char
  | .guarded text => text
  | .bare c => [c]

/-- Where there is room for all pieces, each goes in whole. -/
theorem fill_of_le {room : Nat} {pieces : List Piece}
    (fits : (pieces.flatMap Piece.chars).length ≤ room) :
    fill room pieces = .text (pieces.flatMap Piece.chars) := by
  induction pieces generalizing room with
  | nil => rfl
  | cons piece pieces ih =>
    rw [List.flatMap_cons, List.length_append] at fits
    cases piece with
    | guarded chars =>
      simp only [Piece.chars] at fits
      rw [fill, if_pos (by omega), ih (by omega)]
      rfl
    | bare c =>
      simp only [Piece.chars, List.length_singleton] at fits
      rw [fill, if_pos (by omega), ih (by omega)]
      rfl

theorem flatMap_chars_replicate (n : Nat) (c : Char) :
    (List.replicate n (Piece.bare c)).flatMap Piece.chars = List.replicate n c := by
  induction n with
  | zero => rfl
  | succ n ih => rw [List.replicate_succ, List.flatMap_cons, ih]; rfl

theorem significant_sublist (fraction : Nat) :
    (significant fraction).Sublist (Nat.toDigits 10 fraction) := by
  have trimmed := (List.dropWhile_sublist (l := (Nat.toDigits 10 fraction).reverse) (· == '0'))
  simpa [significant] using trimmed.reverse

theorem flatMap_chars_fractionPieces (fraction : Nat) :
    (fractionPieces fraction).flatMap Piece.chars =
      if fraction = 0 then []
      else '.' :: (List.replicate (places - (Nat.toDigits 10 fraction).length) '0' ++
        significant fraction) := by
  rw [fractionPieces]
  split
  · rfl
  · rw [List.cons_append, List.flatMap_cons, List.flatMap_append, flatMap_chars_replicate,
      List.flatMap_singleton]
    rfl

theorem flatMap_chars_adaPieces (lovelace : Nat) :
    (adaPieces lovelace).flatMap Piece.chars =
      Nat.toDigits 10 (lovelace / lovelacePerAda) ++
        ((fractionPieces (lovelace % lovelacePerAda)).flatMap Piece.chars ++
          [' ', 'A', 'D', 'A']) := by
  rw [adaPieces, List.cons_append, List.flatMap_cons, List.flatMap_append,
    List.flatMap_singleton]
  rfl

theorem length_adaPieces_le {lovelace : Nat} (signed : lovelace < signedLimit) :
    ((adaPieces lovelace).flatMap Piece.chars).length ≤ 24 := by
  rw [signedLimit] at signed
  have whole : (Nat.toDigits 10 (lovelace / lovelacePerAda)).length ≤ 13 := by
    apply (Nat.length_toDigits_le_iff (by decide) (by decide)).mpr
    rw [lovelacePerAda]
    omega
  have digits : (Nat.toDigits 10 (lovelace % lovelacePerAda)).length ≤ 6 := by
    apply (Nat.length_toDigits_le_iff (by decide) (by decide)).mpr
    rw [lovelacePerAda]
    omega
  have trimmed := (significant_sublist (lovelace % lovelacePerAda)).length_le
  rw [flatMap_chars_adaPieces, flatMap_chars_fractionPieces, places]
  split <;> simp only [List.length_append, List.length_cons, List.length_nil,
    List.length_replicate] <;> omega

theorem oneByteEach_adaPieces (lovelace : Nat) :
    OneByteEach ((adaPieces lovelace).flatMap Piece.chars) := by
  have unit : OneByteEach [' ', 'A', 'D', 'A'] :=
    .cons (by decide) (.cons (by decide) (.cons (by decide) (.cons (by decide) .nil)))
  rw [flatMap_chars_adaPieces, flatMap_chars_fractionPieces]
  refine .append (oneByteEach_toDigits _) (.append ?_ unit)
  split
  · exact .nil
  · refine .cons (by decide) (.append ?_ ?_)
    · intro c membership
      rw [List.eq_of_mem_replicate membership]
      decide
    · intro c membership
      exact oneByteEach_toDigits _ c ((significant_sublist _).subset membership)

theorem ada?_adaRoom_of_lt {lovelace : UInt64} (signed : lovelace.toNat < signedLimit) :
    ada? Item.adaRoom lovelace =
      some (String.ofList ((adaPieces lovelace.toNat).flatMap Piece.chars)) := by
  have length := length_adaPieces_le signed
  rw [ada?, if_neg (Nat.not_le_of_lt signed), fill_of_le (Nat.le_trans length (by decide))]

theorem ada?_of_le {room : Nat} {lovelace : UInt64} (large : signedLimit ≤ lovelace.toNat) :
    ada? room lovelace = some "VALUE_ERR" :=
  if_pos large

/-- No amount overruns the room set aside for it, whether or not it is a signed 64-bit number. -/
theorem ada?_adaRoom (lovelace : UInt64) :
    ∃ value, ada? Item.adaRoom lovelace = some value ∧ value.utf8ByteSize ≤ 24 := by
  by_cases large : signedLimit ≤ lovelace.toNat
  · exact ⟨"VALUE_ERR", ada?_of_le large, by decide⟩
  · have signed : lovelace.toNat < signedLimit := Nat.lt_of_not_le large
    refine ⟨_, ada?_adaRoom_of_lt signed, ?_⟩
    rw [(oneByteEach_adaPieces _).utf8ByteSize_ofList]
    exact length_adaPieces_le signed

theorem utf8ByteSize_quantity_le (tokens : UInt64) :
    (quantity Item.quantityRoom tokens).utf8ByteSize ≤ Fact.maxValueSize := by
  have digits := length_toDigits_word64 tokens
  rw [quantity, if_pos (Nat.le_trans digits (by decide)),
    (oneByteEach_toDigits _).utf8ByteSize_ofList]
  exact Nat.le_trans digits (by decide)

end Amount

namespace Item

theorem oneByteEach_asset (policyId : Octets 28) (name : List UInt8) :
    OneByteEach (Hex.ofBytes policyId.bytes ++ '.' :: Hex.ofBytes name) :=
  .append (Hex.oneByteEach_ofBytes _) (.cons (by decide) (Hex.oneByteEach_ofBytes _))

theorem length_asset_le (policyId : Octets 28) {name : List UInt8}
    (short : name.length ≤ Flow.Content.maxNameLength) :
    (Hex.ofBytes policyId.bytes ++ '.' :: Hex.ofBytes name).length ≤ 121 := by
  rw [Flow.Content.maxNameLength] at short
  rw [List.length_append, List.length_cons, Hex.length_ofBytes, Hex.length_ofBytes,
    policyId.length_bytes]
  omega

end Item

namespace Preview

theorem oneByteEach_text (p : Preview) : OneByteEach p.text := by
  have dots : OneByteEach (if p.leading.length < p.size.toNat then ['.', '.'] else []) := by
    split
    · exact .cons (by decide) (.cons (by decide) .nil)
    · exact .nil
  have unit : OneByteEach " bytes: ".toList := .of_all (by decide)
  exact (((oneByteEach_toDigits _).append unit).append (Hex.oneByteEach_ofBytes _)).append dots

theorem length_text_le (p : Preview) : p.text.length ≤ 84 := by
  have digits := length_toDigits_word32 p.size
  have leading : p.leading.length ≤ 32 := p.length_le
  have : " bytes: ".toList.length = 8 := rfl
  rw [text]
  simp only [List.length_append, Hex.length_ofBytes]
  split <;> simp <;> omega

theorem utf8ByteSize_text_le (p : Preview) :
    (String.ofList p.text).utf8ByteSize ≤ Fact.maxValueSize := by
  rw [p.oneByteEach_text.utf8ByteSize_ofList]
  exact Nat.le_trans p.length_text_le (by decide)

end Preview

end WalletConsent
