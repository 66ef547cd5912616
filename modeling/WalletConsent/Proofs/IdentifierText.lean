import WalletConsent.Proofs.DecisionTable
import WalletConsent.Proofs.Sizes

/-!
Reading identifiers back. The words of a path stand between slashes, a policy id and a name on
either side of a point, and the size of a datum, its unit and its first bytes between blanks. None
of these marks occurs in what it divides, so a text falls apart into the parts that it was made of
(`Identifier.ofText?_text`), and no two identifiers have one text.
-/

set_option autoImplicit false

namespace WalletConsent

/-- What the user knows a key, a token, a datum or a script by. -/
inductive Identifier
  | path (path : Path)
  | asset (policyId : Octets 28) (name : List UInt8)
    (short : name.length ≤ Flow.Content.maxNameLength)
  | preview (preview : Preview)
  deriving DecidableEq

/-- A digit or an apostrophe is all that the text of a word has. -/
theorem Segment.not_mem_text {c : Char} (s : Segment) (digit : c.isDigit = false)
    (mark : c ≠ '\x27') : c ∉ s.text := by
  rw [text, List.mem_append, not_or]
  refine ⟨not_mem_toDigits _ digit, ?_⟩
  split
  · exact fun among => mark (List.mem_singleton.mp among)
  · exact List.not_mem_nil

/-- A hardened word ends in an apostrophe. -/
def Segment.ofText? (text : List Char) : Option Segment :=
  let index := UInt32.ofNat (Nat.ofDigitChars 10 (text.takeWhile Char.isDigit) 0)
  match text.dropWhile Char.isDigit with
  | [] => some index
  | ['\x27'] => some (index + hardenedFlag)
  | _ => none

theorem Segment.ofText?_text (s : Segment) : ofText? s.text = some s := by
  have digits : ∀ c ∈ Nat.toDigits 10 (index s).toNat, c.isDigit = true :=
    fun c among => Nat.isDigit_of_mem_toDigits (by decide) (by decide) among
  have number : UInt32.ofNat (Nat.ofDigitChars 10 (Nat.toDigits 10 (index s).toNat) 0) =
      index s := by
    rw [Nat.ofDigitChars_ten_toDigits, UInt32.ofNat_toNat]
  rw [ofText?, text, List.takeWhile_append_of_pos digits, List.dropWhile_append_of_pos digits]
  by_cases hardened : isHardened s = true
  · have whole := (index_eq_iff.mp ⟨hardened, rfl⟩).2
    have apostrophe : ['\x27'].takeWhile Char.isDigit = [] := rfl
    rw [if_pos hardened, apostrophe, List.append_nil, number]
    exact congrArg some whole.symm
  · have soft : index s = s := if_neg hardened
    rw [if_neg hardened, List.takeWhile_nil, List.append_nil, number, soft]
    rfl

namespace Path

theorem intercalate_map_text (front : List Char) (segments : List Segment) :
    ['/'].intercalate (front :: segments.map Segment.text) =
      front ++ segments.flatMap fun s => '/' :: s.text := by
  induction segments generalizing front with
  | nil => simp
  | cons s segments ih =>
    rw [List.map_cons, List.intercalate_cons_cons, ih, List.flatMap_cons]
    simp

theorem text_eq_intercalate (p : Path) :
    p.text = ['/'].intercalate (['m'] :: p.segments.map Segment.text) :=
  (intercalate_map_text ['m'] p.segments).symm

/-- Reads the words between the slashes behind the `m`. -/
def ofText? (text : List Char) : Option Path :=
  match text.splitOn '/' with
  | ['m'] :: words => do (of (← words.mapM Segment.ofText?)).toOption
  | _ => none

theorem ofText?_text (p : Path) : ofText? p.text = some p := by
  have undivided : ∀ word ∈ ['m'] :: p.segments.map Segment.text, '/' ∉ word := by
    simp only [List.forall_mem_cons, List.forall_mem_map]
    exact ⟨by decide, fun s _ => s.not_mem_text (by decide) (by decide)⟩
  have words : (p.segments.map Segment.text).mapM Segment.ofText? = some p.segments := by
    have each : Segment.ofText? ∘ Segment.text = fun s => pure s := funext Segment.ofText?_text
    rw [List.mapM_map, each, List.mapM_pure, List.map_id']
    rfl
  rw [ofText?, text_eq_intercalate, List.splitOn_intercalate _ undivided (List.cons_ne_nil _ _)]
  simp [words, Except.toOption]

end Path

namespace Preview

variable (p : Preview)

/-- What stands before the dots. -/
def front : List Char :=
  Nat.toDigits 10 p.size.toNat ++ " bytes: ".toList ++ Hex.ofBytes p.leading

def dots : List Char := if p.leading.length < p.size.toNat then ['.', '.'] else []

theorem text_eq_front_append_dots : p.text = p.front ++ p.dots := rfl

theorem not_mem_front {c : Char} (digit : c.isDigit = false) (unit : c ∉ " bytes: ".toList)
    (byte : ∀ n < 16, c ≠ Nat.digitChar n) : c ∉ p.front := by
  simp only [front, List.mem_append, not_or]
  exact ⟨⟨not_mem_toDigits _ digit, unit⟩, Hex.not_mem_ofBytes _ byte⟩

theorem eq_of_mem_dots {c : Char} (among : c ∈ p.dots) : c = '.' := by
  rw [dots] at among
  split at among
  · simpa using among
  · cases among

/-- The dots stand for the bytes that are left out. -/
theorem dots_isSuffix_text_iff : ['.', '.'] <:+ p.text ↔ p.leading.length < p.size.toNat := by
  rw [text_eq_front_append_dots]
  constructor
  · intro ending
    apply Nat.lt_of_not_le
    intro all
    have among := ending.subset List.mem_cons_self
    rw [dots, if_neg (Nat.not_lt_of_le all), List.append_nil] at among
    exact p.not_mem_front (by decide) (by decide) (by decide) among
  · intro more
    rw [dots, if_pos more]
    exact List.suffix_append _ _

theorem text_eq_intercalate :
    p.text = [' '].intercalate
      [Nat.toDigits 10 p.size.toNat, "bytes:".toList, Hex.ofBytes p.leading ++ p.dots] := by
  have unit : " bytes: ".toList = ' ' :: "bytes:".toList ++ [' '] := by decide
  simp [text_eq_front_append_dots, front, unit]

/-- Reads the size before the first blank, and the bytes behind the second up to the dots. -/
def ofText? (text : List Char) : Option Preview :=
  match text.splitOn ' ' with
  | [size, _, leading] => do
    let bytes ← Hex.toBytes? (leading.takeWhile (· ≠ '.'))
    return of (UInt32.ofNat (Nat.ofDigitChars 10 size 0)) bytes
  | _ => none

theorem of_size_leading : of p.size p.leading = p := by
  cases p with
  | mk size leading short => simp [of, List.take_of_length_le short]

theorem ofText?_text : ofText? p.text = some p := by
  have undivided : ∀ word ∈ [Nat.toDigits 10 p.size.toNat, "bytes:".toList,
      Hex.ofBytes p.leading ++ p.dots], ' ' ∉ word := by
    simp only [List.forall_mem_cons, List.mem_append, not_or]
    exact ⟨not_mem_toDigits _ (by decide), by decide,
      ⟨Hex.not_mem_ofBytes _ (by decide), fun among => nomatch p.eq_of_mem_dots among⟩, by simp⟩
  have leading : (Hex.ofBytes p.leading ++ p.dots).takeWhile (· ≠ '.') =
      Hex.ofBytes p.leading := by
    have bytes : ∀ c ∈ Hex.ofBytes p.leading, decide (c ≠ '.') = true := by
      rintro c among
      apply decide_eq_true
      rintro rfl
      exact Hex.not_mem_ofBytes _ (by decide) among
    rw [List.takeWhile_append_of_pos bytes, dots]
    split <;> simp
  rw [ofText?, text_eq_intercalate, List.splitOn_intercalate _ undivided (List.cons_ne_nil _ _)]
  simp only [leading, Hex.toBytes?_ofBytes, Nat.ofDigitChars_ten_toDigits, UInt32.ofNat_toNat]
  exact congrArg some p.of_size_leading

end Preview

namespace Identifier

def text : Identifier → List Char
  | path p => p.text
  | asset policyId name _ => Hex.ofBytes policyId.bytes ++ '.' :: Hex.ofBytes name
  | preview p => p.text

def assetOfText? (text : List Char) : Option Identifier :=
  match text.splitOn '.' with
  | [policyId, name] => do
    let policyId ← Octets.of? (← Hex.toBytes? policyId)
    let name ← Hex.toBytes? name
    if short : name.length ≤ Flow.Content.maxNameLength then return asset policyId name short
    else none
  | _ => none

/-- Only a path has an `m` in its text, and only a preview a blank. -/
def ofText? (text : List Char) : Option Identifier :=
  if 'm' ∈ text then path <$> Path.ofText? text
  else if ' ' ∈ text then preview <$> Preview.ofText? text
  else assetOfText? text

theorem assetOfText?_text {policyId : Octets 28} {name : List UInt8}
    (short : name.length ≤ Flow.Content.maxNameLength) :
    assetOfText? (asset policyId name short).text = some (asset policyId name short) := by
  have undivided : ∀ word ∈ [Hex.ofBytes policyId.bytes, Hex.ofBytes name], '.' ∉ word := by
    simp only [List.forall_mem_cons]
    exact ⟨Hex.not_mem_ofBytes _ (by decide), Hex.not_mem_ofBytes _ (by decide), by simp⟩
  have whole : (asset policyId name short).text =
      ['.'].intercalate [Hex.ofBytes policyId.bytes, Hex.ofBytes name] := by
    simp [text]
  rw [assetOfText?, whole, List.splitOn_intercalate _ undivided (List.cons_ne_nil _ _)]
  simp [Hex.toBytes?_ofBytes, short]

/-- The text of an identifier gives the identifier back. -/
theorem ofText?_text (i : Identifier) : ofText? i.text = some i := by
  cases i with
  | path p =>
    have letter : 'm' ∈ (path p).text := List.mem_cons_self
    rw [ofText?, if_pos letter, text, p.ofText?_text]
    rfl
  | asset policyId name short =>
    have letter : 'm' ∉ (asset policyId name short).text := by
      simp [text, Hex.not_mem_ofBytes _ (by decide : ∀ n < 16, 'm' ≠ Nat.digitChar n)]
    have blank : ' ' ∉ (asset policyId name short).text := by
      simp [text, Hex.not_mem_ofBytes _ (by decide : ∀ n < 16, ' ' ≠ Nat.digitChar n)]
    rw [ofText?, if_neg letter, if_neg blank, assetOfText?_text]
  | preview p =>
    have letter : 'm' ∉ (preview p).text := by
      rw [text, p.text_eq_front_append_dots, List.mem_append, not_or]
      exact ⟨p.not_mem_front (by decide) (by decide) (by decide),
        fun among => nomatch p.eq_of_mem_dots among⟩
    have blank : ' ' ∈ (preview p).text := by
      simp [text, Preview.text]
    rw [ofText?, if_neg letter, if_pos blank, text, p.ofText?_text]
    rfl

theorem text_injective : Function.Injective text := by
  intro i j same
  apply Option.some.inj
  rw [← i.ofText?_text, same, j.ofText?_text]

end Identifier

end WalletConsent
