import Mathlib.Data.List.TakeWhile
import WalletConsent.Proofs.Sizes

/-!
Reading an amount of ADA back. The digits before the point count ADA, those behind it fill up six
places, and the unit follows a blank. Below the bound of the signed numbers the text gives back the
amount of lovelace that it was made of, so different amounts have different texts. From the bound on
there is one text for all.
-/

set_option autoImplicit false

namespace WalletConsent

namespace Amount

/-- The lovelace that a text in ADA stands for. -/
def ofText (text : List Char) : Nat :=
  let number := text.takeWhile (· ≠ ' ')
  let whole := number.takeWhile (· ≠ '.')
  let fraction := number.drop (whole.length + 1)
  lovelacePerAda * Nat.ofDigitChars 10 whole 0 +
    Nat.ofDigitChars 10 (fraction ++ List.replicate (places - fraction.length) '0') 0

theorem ne_of_mem_toDigits {n : Nat} {c : Char} (among : c ∈ Nat.toDigits 10 n) :
    c ≠ ' ' ∧ c ≠ '.' := by
  constructor
  · rintro rfl
    exact not_mem_toDigits n (by decide) among
  · rintro rfl
    exact not_mem_toDigits n (by decide) among

/-- The zeros cut off behind the last significant digit. -/
theorem significant_append_zeros (fraction : Nat) :
    significant fraction ++
        List.replicate ((Nat.toDigits 10 fraction).length - (significant fraction).length) '0' =
      Nat.toDigits 10 fraction := by
  have split := List.takeWhile_append_dropWhile (p := (· == '0'))
    (l := (Nat.toDigits 10 fraction).reverse)
  have whole := congrArg List.reverse split
  rw [List.reverse_append, List.reverse_reverse] at whole
  have zeros : ((Nat.toDigits 10 fraction).reverse.takeWhile (· == '0')).reverse =
      List.replicate ((Nat.toDigits 10 fraction).length - (significant fraction).length) '0' := by
    apply List.eq_replicate_iff.mpr
    constructor
    · have lengths := congrArg List.length whole
      rw [List.length_append] at lengths
      rw [significant]
      omega
    · intro c among
      have zero := List.mem_takeWhile_imp (List.mem_reverse.mp among)
      exact eq_of_beq zero
  rw [← zeros]
  exact whole

/-- The digits behind the point, filled up to six places, give back the fraction. -/
theorem ofDigitChars_fraction {fraction : Nat} (proper : fraction < lovelacePerAda) :
    let digits := List.replicate (places - (Nat.toDigits 10 fraction).length) '0' ++
      significant fraction
    digits.length ≤ places ∧
      Nat.ofDigitChars 10 (digits ++ List.replicate (places - digits.length) '0') 0 = fraction := by
  intro digits
  have few : (Nat.toDigits 10 fraction).length ≤ places :=
    (Nat.length_toDigits_le_iff (by decide) (by decide)).mpr proper
  have trimmed := (significant_sublist fraction).length_le
  have length : digits.length =
      places - (Nat.toDigits 10 fraction).length + (significant fraction).length := by
    rw [List.length_append, List.length_replicate]
  have left : places - digits.length =
      (Nat.toDigits 10 fraction).length - (significant fraction).length := by omega
  refine ⟨by omega, ?_⟩
  rw [left, List.append_assoc, significant_append_zeros, Nat.ofDigitChars_append,
    Nat.ofDigitChars_replicate_zero]
  exact Nat.ofDigitChars_ten_toDigits

/-- Neither the digits before the point nor what stands between them and the unit has a blank. -/
theorem ne_blank_of_mem_fractionPieces {fraction : Nat} {c : Char}
    (among : c ∈ (fractionPieces fraction).flatMap Piece.chars) : c ≠ ' ' := by
  rw [flatMap_chars_fractionPieces] at among
  split at among
  · cases among
  · rcases List.mem_cons.mp among with rfl | among
    · decide
    · rcases List.mem_append.mp among with zero | digit
      · rw [List.eq_of_mem_replicate zero]
        decide
      · exact (ne_of_mem_toDigits ((significant_sublist fraction).subset digit)).1

theorem takeWhile_adaPieces (lovelace : Nat) :
    ((adaPieces lovelace).flatMap Piece.chars).takeWhile (· ≠ ' ') =
      Nat.toDigits 10 (lovelace / lovelacePerAda) ++
        (fractionPieces (lovelace % lovelacePerAda)).flatMap Piece.chars := by
  rw [flatMap_chars_adaPieces, List.takeWhile_append_of_pos, List.takeWhile_append_of_pos]
  · exact congrArg _ (List.append_nil _)
  · intro c among
    exact decide_eq_true (ne_blank_of_mem_fractionPieces among)
  · intro c among
    exact decide_eq_true (ne_of_mem_toDigits among).1

/-- The text of an amount gives the amount back. -/
theorem ofText_adaPieces (lovelace : Nat) :
    ofText ((adaPieces lovelace).flatMap Piece.chars) = lovelace := by
  have parts := Nat.div_add_mod lovelace lovelacePerAda
  have proper : lovelace % lovelacePerAda < lovelacePerAda := Nat.mod_lt _ (by decide)
  have digits : ∀ c ∈ Nat.toDigits 10 (lovelace / lovelacePerAda), decide (c ≠ '.') = true :=
    fun c among => decide_eq_true (ne_of_mem_toDigits among).2
  rw [ofText, takeWhile_adaPieces, List.takeWhile_append_of_pos digits,
    flatMap_chars_fractionPieces]
  by_cases none : lovelace % lovelacePerAda = 0
  · rw [if_pos none, List.takeWhile_nil, List.append_nil, List.drop_of_length_le (Nat.le_succ _),
      Nat.ofDigitChars_ten_toDigits]
    rw [none] at parts
    exact parts
  · have point : ∀ chars, ('.' :: chars).takeWhile (fun c => decide (c ≠ '.')) = [] :=
      fun chars => rfl
    have behind : ∀ whole chars : List Char,
        (whole ++ '.' :: chars).drop (whole.length + 1) = chars := by
      intro whole chars
      rw [← List.drop_drop, List.drop_left]
      rfl
    rw [if_neg none, point, List.append_nil, behind, Nat.ofDigitChars_ten_toDigits,
      (ofDigitChars_fraction proper).2]
    exact parts

/-- Two amounts have one text only if neither is a signed 64-bit number. -/
theorem ada?_adaRoom_eq_iff {a b : UInt64} :
    ada? Item.adaRoom a = ada? Item.adaRoom b ↔
      a = b ∨ signedLimit ≤ a.toNat ∧ signedLimit ≤ b.toNat := by
  -- A proper text ends in its unit.
  have apart : ∀ {large small : UInt64}, signedLimit ≤ large.toNat → small.toNat < signedLimit →
      ada? Item.adaRoom large ≠ ada? Item.adaRoom small := by
    intro large small above below same
    rw [ada?_of_le above, ada?_adaRoom_of_lt below, flatMap_chars_adaPieces, ← List.append_assoc]
      at same
    have chars := String.ofList_injective (Option.some.inj same)
    have last := congrArg List.getLast? chars
    rw [List.getLast?_append] at last
    cases last
  constructor
  · intro same
    by_cases above : signedLimit ≤ a.toNat <;> by_cases above' : signedLimit ≤ b.toNat
    · exact .inr ⟨above, above'⟩
    · exact absurd same (apart above (Nat.lt_of_not_le above'))
    · exact absurd same.symm (apart above' (Nat.lt_of_not_le above))
    · left
      rw [ada?_adaRoom_of_lt (Nat.lt_of_not_le above),
        ada?_adaRoom_of_lt (Nat.lt_of_not_le above')] at same
      have chars := String.ofList_injective (Option.some.inj same)
      apply UInt64.toNat_inj.mp
      rw [← ofText_adaPieces a.toNat, chars, ofText_adaPieces]
  · rintro (rfl | ⟨above, above'⟩)
    · rfl
    · rw [ada?_of_le above, ada?_of_le above']

end Amount

end WalletConsent
