import Mathlib.Algebra.Order.Field.Rat
import Mathlib.Data.List.DropRight
import Mathlib.Tactic.FieldSimp
import WalletConsent.Proofs.AmountText
import WalletConsent.Proofs.DistinctAmounts

/-!
Amounts of ADA in rooms of every size. The text of an amount is its decimal number of ADA, with no
zeros at the end of the fraction and no point where there is none, and the unit; the pieces that are
put into a room spell it. Whether it comes out, is refused or overruns its room depends on where
among the pieces the room ends.
-/

set_option autoImplicit false

namespace WalletConsent

namespace Amount

/-- The decimal places of a fraction, as far as they are not zero to the end. -/
def decimals (fraction : Nat) : List Char :=
  ((Nat.toDigits 10 fraction).leftpad places '0').rdropWhile (· == '0')

def adaText (lovelace : Nat) : List Char :=
  let fraction := decimals (lovelace % lovelacePerAda)
  Nat.toDigits 10 (lovelace / lovelacePerAda) ++
    (if fraction = [] then [] else '.' :: fraction) ++ [' ', 'A', 'D', 'A']

/-- The number of ADA that a text states. -/
def stated (text : List Char) : ℚ :=
  let number := text.takeWhile (· ≠ ' ')
  let whole := number.takeWhile (· ≠ '.')
  let fraction := number.drop (whole.length + 1)
  Nat.ofDigitChars 10 whole 0 + Nat.ofDigitChars 10 fraction 0 / 10 ^ fraction.length

/-- A room that ends among the zeros that lead the fraction. -/
def EndsInZeros (room lovelace : Nat) : Prop :=
  let front := (Nat.toDigits 10 (lovelace / lovelacePerAda)).length + 1
  let zeros := (decimals (lovelace % lovelacePerAda)).takeWhile (· == '0')
  lovelace % lovelacePerAda ≠ 0 ∧ front ≤ room ∧ room < front + zeros.length

instance (room lovelace : Nat) : Decidable (EndsInZeros room lovelace) :=
  inferInstanceAs (Decidable (_ ∧ _ ∧ _))

section Digits

variable {fraction : Nat}

/-- No number but zero begins with a zero. -/
theorem head?_toDigits_ne {n : Nat} (pos : 0 < n) : (Nat.toDigits 10 n).head? ≠ some '0' := by
  induction n using Nat.strong_induction_on with
  | _ n ih =>
    by_cases single : n < 10
    · rw [Nat.toDigits_of_lt_base single]
      have digit : ∀ d < 10, 0 < d → Nat.digitChar d ≠ '0' := by decide
      simpa using digit n single pos
    · have shorter := ih (n / 10) (by omega) (by omega)
      rw [Nat.toDigits_of_base_le (by decide) (by omega), List.head?_append]
      cases digits : Nat.toDigits 10 (n / 10) with
      | nil => exact absurd digits Nat.toDigits_ne_nil
      | cons c rest =>
        rw [digits] at shorter
        exact shorter

theorem exists_significant_eq_cons (pos : 0 < fraction) :
    ∃ c rest, significant fraction = c :: rest ∧ c ≠ '0' := by
  have leading := head?_toDigits_ne pos
  have front : significant fraction <+: Nat.toDigits 10 fraction := List.rdropWhile_prefix _ _
  obtain ⟨cut, whole⟩ := front
  cases shown : significant fraction with
  | nil =>
    have zeros := List.rdropWhile_eq_nil_iff.mp shown
    exfalso
    cases digits : Nat.toDigits 10 fraction with
    | nil => exact absurd digits Nat.toDigits_ne_nil
    | cons c rest =>
      rw [digits] at leading zeros
      have zero := zeros c List.mem_cons_self
      exact leading (congrArg some (eq_of_beq zero))
  | cons c rest =>
    rw [← whole, shown] at leading
    exact ⟨c, rest, rfl, fun zero => leading (congrArg some zero)⟩

theorem decimals_zero : decimals 0 = [] := rfl

theorem decimals_of_pos (pos : 0 < fraction) :
    decimals fraction = List.replicate (places - (Nat.toDigits 10 fraction).length) '0' ++
      significant fraction := by
  obtain ⟨c, rest, shown, -⟩ := exists_significant_eq_cons pos
  have reversed : (Nat.toDigits 10 fraction).reverse.dropWhile (· == '0') =
      (significant fraction).reverse := (List.reverse_reverse _).symm
  -- A significant digit ends the cut before it comes to the zeros in front.
  have some : (significant fraction).reverse.isEmpty = false := by simp [shown]
  rw [decimals, List.leftpad, List.rdropWhile, List.reverse_append, List.dropWhile_append, reversed,
    some, if_neg (by decide), List.reverse_append, List.reverse_reverse, List.reverse_reverse]

theorem decimals_eq_nil_iff : decimals fraction = [] ↔ fraction = 0 := by
  constructor
  · intro none
    by_contra some
    have pos := Nat.pos_of_ne_zero some
    obtain ⟨c, rest, shown, -⟩ := exists_significant_eq_cons pos
    rw [decimals_of_pos pos, shown] at none
    simp at none
  · rintro rfl
    exact decimals_zero

theorem getLast?_decimals_ne (fraction : Nat) : (decimals fraction).getLast? ≠ some '0' := by
  intro zero
  obtain ⟨some, last⟩ := List.mem_getLast?_eq_getLast (Option.mem_def.mpr zero)
  have nonzero := List.rdropWhile_last_not _ _ some
  exact nonzero (beq_iff_eq.mpr last.symm)

theorem takeWhile_decimals (pos : 0 < fraction) :
    (decimals fraction).takeWhile (· == '0') =
      List.replicate (places - (Nat.toDigits 10 fraction).length) '0' := by
  obtain ⟨c, rest, shown, nonzero⟩ := exists_significant_eq_cons pos
  have zeros : ∀ c ∈ List.replicate (places - (Nat.toDigits 10 fraction).length) '0',
      (c == '0') = true := fun c among => beq_iff_eq.mpr (List.eq_of_mem_replicate among)
  rw [decimals_of_pos pos, List.takeWhile_append_of_pos zeros, shown,
    List.takeWhile_cons_of_neg (by simpa using nonzero), List.append_nil]

/-- The decimal places, filled up to six, give back the fraction. -/
theorem ofDigitChars_decimals (proper : fraction < lovelacePerAda) :
    (decimals fraction).length ≤ places ∧
      10 ^ (places - (decimals fraction).length) * Nat.ofDigitChars 10 (decimals fraction) 0 =
        fraction := by
  by_cases none : fraction = 0
  · subst none
    exact ⟨Nat.zero_le _, rfl⟩
  · obtain ⟨few, value⟩ := ofDigitChars_fraction proper
    rw [← decimals_of_pos (Nat.pos_of_ne_zero none)] at few value
    rw [Nat.ofDigitChars_append, Nat.ofDigitChars_replicate_zero] at value
    exact ⟨few, value⟩

end Digits

theorem flatMap_chars_fractionPieces_eq (fraction : Nat) :
    (fractionPieces fraction).flatMap Piece.chars =
      if decimals fraction = [] then [] else '.' :: decimals fraction := by
  rw [flatMap_chars_fractionPieces]
  by_cases none : fraction = 0
  · rw [if_pos none, if_pos (decimals_eq_nil_iff.mpr none)]
  · rw [if_neg none, if_neg fun empty => none (decimals_eq_nil_iff.mp empty),
      decimals_of_pos (Nat.pos_of_ne_zero none)]

/-- The pieces of an amount spell its text. -/
theorem flatMap_chars_adaPieces_eq (lovelace : Nat) :
    (adaPieces lovelace).flatMap Piece.chars = adaText lovelace := by
  rw [flatMap_chars_adaPieces, flatMap_chars_fractionPieces_eq, adaText, List.append_assoc]

/-- What comes of a piece without room. -/
def Piece.failing : Piece → Filling
  | guarded _ => .refused
  | bare _ => .overrun

section Filling

variable {room : Nat} {piece : Piece} {pieces : List Piece} {chars : List Char}

theorem fill_cons :
    fill room (piece :: pieces) =
      if piece.chars.length ≤ room then
        (fill (room - piece.chars.length) pieces).after piece.chars
      else piece.failing := by
  cases piece <;> rfl

theorem fill_append (front back : List Piece) :
    fill room (front ++ back) =
      match fill room front with
      | .text chars => (fill (room - chars.length) back).after chars
      | .refused => .refused
      | .overrun => .overrun := by
  induction front generalizing room with
  | nil =>
    rw [List.nil_append, fill]
    change _ = (fill room back).after []
    cases fill room back <;> rfl
  | cons piece front ih =>
    -- Both sides put the piece first, and go on in the room that it leaves.
    rw [List.cons_append, fill_cons, fill_cons]
    split
    · rw [ih]
      cases fill (room - piece.chars.length) front with
      | text chars =>
        simp only [Filling.after, List.length_append, ← Nat.sub_sub]
        cases fill (room - piece.chars.length - chars.length) back <;> simp
      | refused | overrun => rfl
    · cases piece <;> rfl

/-- What comes out is the whole text. -/
theorem fill_eq_text_iff :
    fill room pieces = .text chars ↔
      chars = pieces.flatMap Piece.chars ∧ chars.length ≤ room := by
  constructor
  · intro filled
    suffices fits : (pieces.flatMap Piece.chars).length ≤ room by
      rw [fill_of_le fits] at filled
      cases filled
      exact ⟨rfl, fits⟩
    induction pieces generalizing room chars with
    | nil => exact Nat.zero_le _
    | cons piece pieces ih =>
      rw [fill_cons] at filled
      split at filled
      · cases rest : fill (room - piece.chars.length) pieces with
        | text chars =>
          have fits := ih rest
          rw [List.flatMap_cons, List.length_append]
          omega
        | refused | overrun =>
          rw [rest] at filled
          cases filled
      · cases piece <;> cases filled
  · rintro ⟨rfl, fits⟩
    exact fill_of_le fits

theorem fill_nil_ne_overrun : fill room [] ≠ .overrun := nofun

theorem fill_cons_eq_overrun_iff :
    fill room (piece :: pieces) = .overrun ↔
      piece.chars.length ≤ room ∧ fill (room - piece.chars.length) pieces = .overrun ∨
        room < piece.chars.length ∧ piece.failing = .overrun := by
  rw [fill_cons]
  split
  · cases fill (room - piece.chars.length) pieces <;> simp [Filling.after, *]
  · simp [*]
    omega

theorem fill_guarded_eq_overrun_iff {text : List Char} :
    fill room (.guarded text :: pieces) = .overrun ↔
      text.length ≤ room ∧ fill (room - text.length) pieces = .overrun := by
  simp [fill_cons_eq_overrun_iff, Piece.chars, Piece.failing]

theorem fill_replicate_eq_overrun_iff {n : Nat} {c : Char} :
    fill room (List.replicate n (.bare c) ++ pieces) = .overrun ↔
      room < n ∨ n ≤ room ∧ fill (room - n) pieces = .overrun := by
  induction n generalizing room with
  | zero => simp
  | succ n ih =>
    rw [List.replicate_succ, List.cons_append, fill_cons_eq_overrun_iff, ih]
    simp only [Piece.chars, Piece.failing, List.length_singleton, Nat.sub_sub, Nat.add_comm 1 n]
    grind

/-- Only the zeros that lead the fraction overrun a room. -/
theorem fill_adaPieces_eq_overrun_iff {lovelace : Nat} :
    fill room (adaPieces lovelace) = .overrun ↔ EndsInZeros room lovelace := by
  rw [adaPieces, fractionPieces, EndsInZeros]
  by_cases none : lovelace % lovelacePerAda = 0
  · simp [none, fill_guarded_eq_overrun_iff, fill_nil_ne_overrun]
  · rw [takeWhile_decimals (Nat.pos_of_ne_zero none), if_neg none]
    simp [none, fill_guarded_eq_overrun_iff, fill_replicate_eq_overrun_iff, fill_nil_ne_overrun]
    omega

end Filling

/-- The pieces of a number of ADA, without the unit. -/
def numberPieces (lovelace : Nat) : List Piece :=
  .guarded (Nat.toDigits 10 (lovelace / lovelacePerAda)) ::
    fractionPieces (lovelace % lovelacePerAda)

/-- A writer of fractional numbers puts them into a room piece by piece. -/
def WritesPieces (number : Nat → Nat → Filling) : Prop :=
  ∀ room lovelace, number room lovelace = fill room (numberPieces lovelace)

/-- An amount put into a room in two steps: its number by a writer of fractional numbers, and the
unit into what is left. -/
def adaBy? (number : Nat → Nat → Filling) (room : Nat) (lovelace : UInt64) : Option String :=
  if signedLimit ≤ lovelace.toNat then some "VALUE_ERR"
  else
    match number room lovelace.toNat with
    | .text chars =>
      if 4 ≤ room - chars.length then some (String.ofList (chars ++ [' ', 'A', 'D', 'A']))
      else some "ENCODE_ERR"
    | .refused => some "ENCODE_ERR"
    | .overrun => none

theorem adaBy?_eq {number : Nat → Nat → Filling} (writes : WritesPieces number) (room : Nat)
    (lovelace : UInt64) : adaBy? number room lovelace = ada? room lovelace := by
  have parts : adaPieces lovelace.toNat =
      numberPieces lovelace.toNat ++ [.guarded [' ', 'A', 'D', 'A']] := rfl
  rw [adaBy?, ada?, writes, parts, fill_append]
  cases fill room (numberPieces lovelace.toNat) with
  | text chars =>
    have unit : fill (room - chars.length) [.guarded [' ', 'A', 'D', 'A']] =
        if 4 ≤ room - chars.length then .text [' ', 'A', 'D', 'A'] else .refused := rfl
    by_cases fits : 4 ≤ room - chars.length <;> simp only [unit, fits] <;> rfl
  | refused | overrun => rfl

section Text

variable {lovelace : UInt64}

theorem ada?_eq_none_iff (signed : lovelace.toNat < signedLimit) {room : Nat} :
    ada? room lovelace = none ↔ EndsInZeros room lovelace.toNat := by
  rw [ada?, if_neg (Nat.not_le_of_lt signed), ← fill_adaPieces_eq_overrun_iff]
  cases fill room (adaPieces lovelace.toNat) <;> simp

/-- No amount reads as a failure: it ends in its unit. -/
theorem ofList_adaText_ne (lovelace : Nat) : String.ofList (adaText lovelace) ≠ "ENCODE_ERR" := by
  intro same
  have last := congrArg (fun text : String => text.toList.getLast?) same
  simp [adaText] at last

theorem ada?_eq_adaText_iff (signed : lovelace.toNat < signedLimit) {room : Nat} :
    ada? room lovelace = some (String.ofList (adaText lovelace.toNat)) ↔
      (adaText lovelace.toNat).length ≤ room := by
  have whole := flatMap_chars_adaPieces_eq lovelace.toNat
  constructor
  · intro told
    rw [ada?, if_neg (Nat.not_le_of_lt signed)] at told
    cases filled : fill room (adaPieces lovelace.toNat) with
    | text chars =>
      obtain ⟨rfl, fits⟩ := fill_eq_text_iff.mp filled
      rwa [whole] at fits
    | refused =>
      rw [filled] at told
      exact absurd (Option.some.inj told).symm (ofList_adaText_ne _)
    | overrun =>
      rw [filled] at told
      cases told
  · intro fits
    rw [← whole] at fits
    rw [ada?, if_neg (Nat.not_le_of_lt signed), fill_of_le fits, whole]

theorem ada?_eq_told_or (signed : lovelace.toNat < signedLimit) (room : Nat) :
    ada? room lovelace = some (String.ofList (adaText lovelace.toNat)) ∨
      ada? room lovelace = none ∨ ada? room lovelace = some "ENCODE_ERR" := by
  rw [ada?, if_neg (Nat.not_le_of_lt signed)]
  cases filled : fill room (adaPieces lovelace.toNat) with
  | text chars =>
    obtain ⟨rfl, -⟩ := fill_eq_text_iff.mp filled
    rw [flatMap_chars_adaPieces_eq]
    exact .inl rfl
  | refused => exact .inr (.inr rfl)
  | overrun => exact .inr (.inl rfl)

theorem ada?_eq_refused_iff (signed : lovelace.toNat < signedLimit) {room : Nat} :
    ada? room lovelace = some "ENCODE_ERR" ↔
      room < (adaText lovelace.toNat).length ∧ ¬ EndsInZeros room lovelace.toNat := by
  rw [← Nat.not_le, ← ada?_eq_adaText_iff signed, ← ada?_eq_none_iff signed]
  constructor
  · intro refused
    rw [refused]
    exact ⟨fun same => ofList_adaText_ne _ (Option.some.inj same).symm, nofun⟩
  · rintro ⟨untold, inside⟩
    rcases ada?_eq_told_or signed room with told | overrun | refused
    · exact absurd told untold
    · exact absurd overrun inside
    · exact refused

theorem dot_mem_adaText_iff {lovelace : Nat} :
    '.' ∈ adaText lovelace ↔ lovelace % lovelacePerAda ≠ 0 := by
  have digits : '.' ∉ Nat.toDigits 10 (lovelace / lovelacePerAda) := fun among =>
    (ne_of_mem_toDigits among).2 rfl
  rw [adaText]
  by_cases none : lovelace % lovelacePerAda = 0
  · simp [none, digits, decimals_zero]
  · simp [none, decimals_eq_nil_iff]

/-- The digits before the point, and those behind it. -/
theorem parts_adaText (lovelace : Nat) :
    let number := (adaText lovelace).takeWhile (· ≠ ' ')
    let whole := number.takeWhile (· ≠ '.')
    whole = Nat.toDigits 10 (lovelace / lovelacePerAda) ∧
      number.drop (whole.length + 1) = decimals (lovelace % lovelacePerAda) := by
  intro number whole
  have digits : ∀ c ∈ Nat.toDigits 10 (lovelace / lovelacePerAda), decide (c ≠ '.') = true :=
    fun c among => decide_eq_true (ne_of_mem_toDigits among).2
  have parts : number = Nat.toDigits 10 (lovelace / lovelacePerAda) ++
      if decimals (lovelace % lovelacePerAda) = [] then []
      else '.' :: decimals (lovelace % lovelacePerAda) := by
    rw [← flatMap_chars_fractionPieces_eq, ← takeWhile_adaPieces, flatMap_chars_adaPieces_eq]
  have front : whole = Nat.toDigits 10 (lovelace / lovelacePerAda) := by
    change number.takeWhile _ = _
    rw [parts, List.takeWhile_append_of_pos digits]
    split <;> exact List.append_nil _
  refine ⟨front, ?_⟩
  rw [front, parts, ← List.drop_drop, List.drop_left]
  split
  · rename_i none
    exact none.symm
  · rfl

theorem stated_adaText (lovelace : Nat) : stated (adaText lovelace) * 10 ^ 6 = lovelace := by
  have proper : lovelace % lovelacePerAda < lovelacePerAda := Nat.mod_lt _ (by decide)
  obtain ⟨whole, fraction⟩ := parts_adaText lovelace
  obtain ⟨few, value⟩ := ofDigitChars_decimals proper
  have parts := Nat.div_add_mod lovelace lovelacePerAda
  rw [stated, fraction, whole, Nat.ofDigitChars_ten_toDigits]
  generalize decimals (lovelace % lovelacePerAda) = digits at few value
  -- What the fraction leaves of the six places is what its digits are short of lovelace.
  have scale : (10 : ℚ) ^ 6 = 10 ^ (places - digits.length) * 10 ^ digits.length := by
    rw [← pow_add, Nat.sub_add_cancel few]
    rfl
  have behind : (Nat.ofDigitChars 10 digits 0 : ℚ) / 10 ^ digits.length * 10 ^ 6 =
      (lovelace % lovelacePerAda : Nat) := by
    rw [scale, ← value]
    push_cast
    field_simp
  have unit : (10 : ℚ) ^ 6 = (lovelacePerAda : Nat) := by norm_cast
  rw [add_mul, behind, unit, mul_comm, ← Nat.cast_mul, ← Nat.cast_add, parts]

theorem length_adaText_le {lovelace : Nat} (signed : lovelace < signedLimit) :
    (adaText lovelace).length ≤ 24 := by
  rw [← flatMap_chars_adaPieces_eq]
  exact length_adaPieces_le signed

end Text

end Amount

open Amount

/-- The scene of an amount shows its text, whatever else is asked about with it. -/
theorem Flow.Content.TakesAmount.exists_scene {label : String} {content : UInt64 → Content}
    (takes : TakesAmount label content) (policy : Policy) {lovelace : UInt64}
    (signed : lovelace.toNat < signedLimit) :
    ∃ front stage f, (content lovelace).scenes policy = front ++ [⟨stage, .item (.ok (.fact f))⟩] ∧
      f.label = label ∧ f.value = String.ofList (adaText lovelace.toNat) := by
  obtain ⟨front, stage, -, scenes⟩ := takes.exists_scenes policy
  obtain ⟨f, named, written, placed⟩ := Item.exists_ada takes.labelFits lovelace
  have room : (adaText lovelace.toNat).length ≤ Item.adaRoom :=
    Nat.le_trans (length_adaText_le signed) (by decide)
  rw [(ada?_eq_adaText_iff signed).mpr room] at written
  refine ⟨front, stage, f, ?_, named, (Option.some.inj written).symm⟩
  rw [scenes, placed]

namespace Amount

/-- How an amount comes out of rooms of every size, by a function that puts it there. -/
structure TellsExactly (put : Nat → UInt64 → Option String) (lovelace : UInt64) : Prop where
  told_iff (room : Nat) :
    put room lovelace = some (String.ofList (adaText lovelace.toNat)) ↔
      (adaText lovelace.toNat).length ≤ room
  overrun_iff (room : Nat) : put room lovelace = none ↔ EndsInZeros room lovelace.toNat
  refused_iff (room : Nat) :
    put room lovelace = some "ENCODE_ERR" ↔
      room < (adaText lovelace.toNat).length ∧ ¬ EndsInZeros room lovelace.toNat
  stated : stated (adaText lovelace.toNat) * 10 ^ 6 = lovelace.toNat
  point_iff : '.' ∈ adaText lovelace.toNat ↔ lovelace.toNat % lovelacePerAda ≠ 0
  trimmed : (decimals (lovelace.toNat % lovelacePerAda)).getLast? ≠ some '0'
  length_le : (adaText lovelace.toNat).length ≤ 24
  /-- The last scene of a flow with an amount shows all of its text. -/
  shown {label : String} {content : UInt64 → Flow.Content}
    (takes : Flow.Content.TakesAmount label content) (policy : Policy) :
    ∃ front stage f, (content lovelace).scenes policy = front ++ [⟨stage, .item (.ok (.fact f))⟩] ∧
      f.label = label ∧ f.value = String.ofList (adaText lovelace.toNat)

/-- Amounts are told exactly or not at all, whatever writes the number piece by piece. -/
theorem tells_exactly {number : Nat → Nat → Filling} (writes : WritesPieces number)
    {lovelace : UInt64} (signed : lovelace.toNat < signedLimit) :
    adaBy? number = ada? ∧ TellsExactly (adaBy? number) lovelace := by
  have same : adaBy? number = ada? := by
    funext room lovelace
    exact adaBy?_eq writes room lovelace
  refine ⟨same, ?_⟩
  rw [same]
  constructor
  case told_iff => exact fun room => ada?_eq_adaText_iff signed
  case overrun_iff => exact fun room => ada?_eq_none_iff signed
  case refused_iff => exact fun room => ada?_eq_refused_iff signed
  case stated => exact stated_adaText _
  case point_iff => exact dot_mem_adaText_iff
  case trimmed => exact getLast?_decimals_ne _
  case length_le => exact length_adaText_le signed
  case shown => exact fun takes policy => takes.exists_scene policy signed

/-- Two ADA and one lovelace: five zeros lead the fraction. -/
theorem tells_exactly_of_one_lovelace :
    let number : Nat → Nat → Filling := fun room lovelace => fill room (numberPieces lovelace)
    let lovelace : UInt64 := 2000001
    WritesPieces number ∧ lovelace.toNat < signedLimit ∧
      adaBy? number 12 lovelace = some "2.000001 ADA" ∧
      adaBy? number 7 lovelace = some "ENCODE_ERR" ∧ adaBy? number 6 lovelace = none ∧
      adaBy? number 1 lovelace = some "ENCODE_ERR" := by
  intro number lovelace
  have writes : WritesPieces number := fun _ _ => rfl
  have signed : lovelace.toNat < signedLimit := by decide
  have text : adaText lovelace.toNat = "2.000001 ADA".toList := by decide
  obtain ⟨-, exactly⟩ := tells_exactly writes signed
  refine ⟨writes, signed, ?_, ?_, ?_, ?_⟩
  · rw [(exactly.told_iff 12).mpr (by decide), text, String.ofList_toList]
  · exact (exactly.refused_iff 7).mpr (by decide)
  · exact (exactly.overrun_iff 6).mpr (by decide)
  · exact (exactly.refused_iff 1).mpr (by decide)

end Amount

end WalletConsent
