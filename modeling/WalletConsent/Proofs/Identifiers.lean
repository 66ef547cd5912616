import WalletConsent.Proofs.IdentifierText
import WalletConsent.Proofs.Writings

/-!
Identifiers on the display. The text of an identifier goes part by part into the room of a fact.
A path without room would be cut, a preview would give way to another text, and a token would be an
error; the longest identifier takes 121 bytes of the 128, so none of this comes about. What a flow
shows of a path, a token, a datum or a script therefore tells it from every other.
-/

set_option autoImplicit false

namespace WalletConsent

/-- A part of a text, put into a room as one. -/
inductive Part
  | number (n : UInt32)
  | hex (bytes : List UInt8)
  | fixed (text : List Char)

def Part.chars : Part → List Char
  | number n => Nat.toDigits 10 n.toNat
  | hex bytes => Hex.ofBytes bytes
  | fixed text => text

/-- Puts a part into what is left of a room, or refuses it. -/
abbrev Printer := Nat → Part → Option (List Char)

namespace Printer

/-- A part goes into a room whole or not at all. -/
def PutsWhole (put : Printer) : Prop :=
  ∀ room part, put room part = if part.chars.length ≤ room then some part.chars else none

/-- What a room has taken of some parts up to the first that was refused, and whether none was. -/
def puts (put : Printer) (room : Nat) : List Part → List Char × Bool
  | [] => ([], true)
  | part :: parts =>
    match put room part with
    | none => ([], false)
    | some chars =>
      let behind := puts put (room - chars.length) parts
      (chars ++ behind.1, behind.2)

variable {put : Printer} {room : Nat} {part : Part} {parts : List Part}

theorem puts_cons_of_le (whole : put.PutsWhole) (fits : part.chars.length ≤ room) :
    put.puts room (part :: parts) =
      (part.chars ++ (put.puts (room - part.chars.length) parts).1,
        (put.puts (room - part.chars.length) parts).2) := by
  rw [puts, whole room part, if_pos fits]

theorem puts_cons_of_lt (whole : put.PutsWhole) (short : room < part.chars.length) :
    put.puts room (part :: parts) = ([], false) := by
  rw [puts, whole room part, if_neg (Nat.not_le_of_lt short)]

theorem puts_of_le (whole : put.PutsWhole) (fits : (parts.flatMap Part.chars).length ≤ room) :
    put.puts room parts = (parts.flatMap Part.chars, true) := by
  induction parts generalizing room with
  | nil => rfl
  | cons part parts ih =>
    rw [List.flatMap_cons, List.length_append] at fits
    rw [puts_cons_of_le whole (Nat.le_of_add_right_le fits), ih (Nat.le_sub_of_add_le' fits)]
    rfl

theorem length_puts_le (whole : put.PutsWhole) : (put.puts room parts).1.length ≤ room := by
  induction parts generalizing room with
  | nil => exact Nat.zero_le _
  | cons part parts ih =>
    rcases Nat.lt_or_ge room part.chars.length with short | fits
    · rw [puts_cons_of_lt whole short]
      exact Nat.zero_le _
    · have rest := @ih (room - part.chars.length)
      rw [puts_cons_of_le whole fits, List.length_append]
      omega

end Printer

def Segment.parts (s : Segment) : List Part :=
  .fixed ['/'] :: .number (index s) :: if isHardened s then [.fixed ['\x27']] else []

theorem Segment.flatMap_chars_parts (s : Segment) :
    s.parts.flatMap Part.chars = '/' :: s.text := by
  rw [parts, text]
  split <;> rfl

namespace Identifier

def parts : Identifier → List Part
  | path p => .fixed ['m'] :: p.segments.flatMap Segment.parts
  | asset policyId name _ => [.hex policyId.bytes, .fixed ['.'], .hex name]
  | preview p =>
    .number p.size :: .fixed " bytes: ".toList :: .hex p.leading ::
      if p.leading.length < p.size.toNat then [.fixed ['.', '.']] else []

/-- What an identifier comes to in a room. Where a part is refused, a path stays as it is by then,
another text stands in for a preview, and a token is refused itself. -/
def told (put : Printer) (room : Nat) (i : Identifier) : Except Fault String :=
  let (chars, whole) := put.puts room i.parts
  match i with
  | path _ => .ok (String.ofList chars)
  | asset .. => if whole then .ok (String.ofList chars) else .error .encodingFailed
  | preview _ => .ok (if whole then String.ofList chars else encodingError)

/-- The parts of an identifier make up its text. -/
theorem flatMap_chars_parts (i : Identifier) : i.parts.flatMap Part.chars = i.text := by
  cases i with
  | path p =>
    rw [parts, text, Path.text, List.flatMap_cons, List.flatMap_assoc]
    simp only [Segment.flatMap_chars_parts]
    rfl
  | asset policyId name short => simp [parts, text, Part.chars]
  | preview p =>
    rw [parts, text, p.text_eq_front_append_dots, Preview.front, Preview.dots]
    split <;> simp [Part.chars]

theorem oneByteEach_text (i : Identifier) : OneByteEach i.text := by
  cases i with
  | path p => exact p.oneByteEach_text
  | asset policyId name _ => exact Item.oneByteEach_asset policyId name
  | preview p => exact p.oneByteEach_text

theorem length_text_le (i : Identifier) : i.text.length ≤ 121 := by
  cases i with
  | path p => exact p.length_text_le
  | asset policyId _ short => exact Item.length_asset_le policyId short
  | preview p => exact Nat.le_trans p.length_text_le (by decide)

/-- The text of an identifier is never the one that stands in for it. -/
theorem ofList_text_ne (i : Identifier) : String.ofList i.text ≠ encodingError := by
  cases i with
  | path p =>
    rw [text, ← Writing.chars_path]
    exact (Writing.fits_path p).text_ne
  | asset policyId name short =>
    rw [text, ← Writing.chars_asset]
    exact (Writing.fits_asset policyId short).text_ne
  | preview p =>
    rw [text, ← Writing.chars_preview]
    exact (Writing.fits_preview p).text_ne

variable {put : Printer}

theorem told_eq_iff (whole : put.PutsWhole) (room : Nat) (i : Identifier) :
    i.told put room = .ok (String.ofList i.text) ↔ i.text.length ≤ room := by
  constructor
  · intro same
    -- What stands in for a text differs from it, so the text itself went into the room.
    have taken : (put.puts room i.parts).1 = i.text := by
      cases i with
      | path p => exact String.ofList_injective (Except.ok.inj same)
      | asset policyId name short =>
        simp only [told] at same
        split at same
        · exact String.ofList_injective (Except.ok.inj same)
        · cases same
      | preview p =>
        simp only [told] at same
        split at same
        · exact String.ofList_injective (Except.ok.inj same)
        · exact absurd (Except.ok.inj same).symm (ofList_text_ne _)
    rw [← taken]
    exact Printer.length_puts_le whole
  · intro fits
    rw [← flatMap_chars_parts] at fits
    have taken := Printer.puts_of_le whole fits
    rw [flatMap_chars_parts] at taken
    cases i <;> simp [told, taken]

end Identifier

namespace Flow

/-- An identifier under its label, at a stage of a flow. -/
structure Naming where
  stage : Stage
  label : String
  identifier : Identifier
  deriving DecidableEq

/-- The paths, tokens, datums and scripts that a flow shows. -/
def Content.namings : (c : Content) → c.fits = true → List Naming
  | keyExport path, _ => [⟨.display, "Public key", .path path⟩]
  | deriveAddress _ spending staking _, _ =>
    ⟨.path, "Address path", .path spending⟩ ::
      staking.toList.map fun path => ⟨.staking, "Staking path", .path path⟩
  | changeOutput _ path staking _ _, _ =>
    ⟨.paymentPath, "Payment path", .path path⟩ ::
      staking.toList.map fun path => ⟨.stakingInfo, "Staking path", .path path⟩
  | witness path, _ => [⟨.display, "Witness path", .path path⟩]
  | token policyId name _, fits =>
    [⟨.name, "Asset", .asset policyId name (of_decide_eq_true fits)⟩]
  | datum (.inline preview), _ => [⟨.display, "Inline datum", .preview preview⟩]
  | script preview, _ => [⟨.display, "Reference script", .preview preview⟩]
  | _, _ => []

/-- A scene shows a fact for the identifier. -/
def Naming.Shown (n : Naming) (scenes : List Scene) : Prop :=
  ∃ f : Fact, ⟨n.stage, .item (.ok (.fact f))⟩ ∈ scenes ∧
    f.label = n.label ∧ f.value = String.ofList n.identifier.text

theorem Naming.Shown.of_mem {stage : Stage} {label : String} {i : Identifier} {scenes : List Scene}
    (labelFits : label.utf8ByteSize ≤ Fact.maxLabelSize)
    (among : ⟨stage, .item (Item.fact? label (String.ofList i.text))⟩ ∈ scenes) :
    (Naming.mk stage label i).Shown scenes := by
  have valueFits : (String.ofList i.text).utf8ByteSize ≤ Fact.maxValueSize := by
    rw [i.oneByteEach_text.utf8ByteSize_ofList]
    exact Nat.le_trans i.length_text_le (by decide)
  rw [Item.fact?_of_fits labelFits valueFits] at among
  exact ⟨_, among, rfl, rfl⟩

theorem Content.namings_shown {c : Content} (fits : c.fits = true) (policy : Policy) :
    ∀ n ∈ c.namings fits, n.Shown (c.scenes policy) := by
  cases c <;> simp only [namings, List.forall_mem_cons, List.forall_mem_map, List.not_mem_nil,
    Option.mem_toList, false_implies, implies_true, and_true]
  case keyExport p =>
    exact .of_mem (by decide) (.tail _ (.tail _ (.head _)))
  case deriveAddress mode spending staking raw =>
    refine ⟨.of_mem (by decide) (.tail _ (.head _)), ?_⟩
    rintro p rfl
    exact .of_mem (by decide) (.tail _ (.tail _ (.head _)))
  case changeOutput amount p staking raw carriesDatum =>
    refine ⟨.of_mem (by decide) (.tail _ (.tail _ (.head _))), ?_⟩
    rintro q rfl
    exact .of_mem (by decide) (.tail _ (.tail _ (.tail _ (.head _))))
  case token policyId name quantity =>
    exact .of_mem (by decide) (.head _)
  case datum d =>
    cases d with
    | hash hash =>
      intro n among
      cases among
    | inline preview =>
      intro n among
      cases List.mem_singleton.mp among
      exact .of_mem (by decide) (.head _)
  case script preview =>
    exact .of_mem (by decide) (.head _)
  case witness p =>
    exact .of_mem (by decide) (.tail _ (.head _))

end Flow

namespace Identifier

/-- Identifiers put into the room of a fact keep all that there is to them. -/
structure LosesNothing (put : Printer) : Prop where
  told (i : Identifier) : i.told put Fact.maxValueSize = .ok (String.ofList i.text)
  /-- The text comes whole out of a room that holds it, and out of no other. -/
  told_iff (room : Nat) (i : Identifier) :
    i.told put room = .ok (String.ofList i.text) ↔ i.text.length ≤ room
  size_le (i : Identifier) : (String.ofList i.text).utf8ByteSize ≤ 121
  legible (i : Identifier) : String.ofList i.text ≠ encodingError
  reads (i : Identifier) : ofText? i.text = some i
  apart (i j : Identifier)
    (same : i.told put Fact.maxValueSize = j.told put Fact.maxValueSize) : i = j
  /-- A path goes by its own text, which gives all of its words back. -/
  path (p : Path) : (path p).told put Fact.maxValueSize = .ok (toString p) ∧
    Path.ofText? (toString p).toList = some p
  asset_iff (policyId policyId' : Octets 28) {name name' : List UInt8}
      (short : name.length ≤ Flow.Content.maxNameLength)
      (short' : name'.length ≤ Flow.Content.maxNameLength) :
    (asset policyId name short).told put Fact.maxValueSize =
        (asset policyId' name' short').told put Fact.maxValueSize ↔
      policyId = policyId' ∧ name = name'
  /-- Datums and scripts are told apart by their sizes and first bytes alone. -/
  preview_iff (size size' : UInt32) (data data' : List UInt8) :
    (preview (.of size data)).told put Fact.maxValueSize =
        (preview (.of size' data')).told put Fact.maxValueSize ↔
      size = size' ∧ data.take 32 = data'.take 32
  dots_iff (size : UInt32) (data : List UInt8) :
    ['.', '.'] <:+ (preview (.of size data)).text ↔ min 32 data.length < size.toNat
  /-- What a flow names, it shows by this text under the label. -/
  shown {c : Flow.Content} (fits : c.fits = true) (policy : Policy) :
    ∀ n ∈ c.namings fits, n.Shown (c.scenes policy)

/-- Nothing of an identifier is lost on the display, whatever printer puts its text there. -/
theorem loses_nothing {put : Printer} (whole : put.PutsWhole) : LosesNothing put := by
  have told : ∀ i : Identifier, i.told put Fact.maxValueSize = .ok (String.ofList i.text) :=
    fun i => (told_eq_iff whole _ i).mpr (Nat.le_trans i.length_text_le (by decide))
  have apart : ∀ i j : Identifier,
      i.told put Fact.maxValueSize = j.told put Fact.maxValueSize → i = j := by
    intro i j same
    rw [told, told] at same
    exact text_injective (String.ofList_injective (Except.ok.inj same))
  constructor
  case told => exact told
  case told_iff => exact told_eq_iff whole
  case size_le =>
    intro i
    rw [i.oneByteEach_text.utf8ByteSize_ofList]
    exact i.length_text_le
  case legible => exact ofList_text_ne
  case reads => exact ofText?_text
  case apart => exact apart
  case path =>
    intro p
    refine ⟨told (.path p), ?_⟩
    exact (congrArg Path.ofText? String.toList_ofList).trans p.ofText?_text
  case asset_iff =>
    intro policyId policyId' name name' short short'
    constructor
    · intro same
      exact asset.inj (apart _ _ same)
    · rintro ⟨rfl, rfl⟩
      rfl
  case preview_iff =>
    intro size size' data data'
    constructor
    · intro same
      have equal := preview.inj (apart _ _ same)
      exact ⟨congrArg Preview.size equal, congrArg Preview.leading equal⟩
    · rintro ⟨rfl, leading⟩
      have equal : Preview.of size data = Preview.of size data' := by
        simp only [Preview.of, Preview.maxLength, leading]
      rw [equal]
  case dots_iff =>
    intro size data
    rw [text, Preview.dots_isSuffix_text_iff, Preview.of, List.length_take]
    rfl
  case shown => exact fun fits policy => Flow.Content.namings_shown fits policy

/-- Ten hardened words of ten digits each, and a datum with one byte more than is shown. -/
theorem loses_nothing_of_longest_path :
    let put : Printer := fun room part => if part.chars.length ≤ room then some part.chars else none
    let longest : Path := ⟨List.replicate 10 0xffffffff, by decide⟩
    let datum : Preview := .of 33 (List.replicate 33 0xab)
    put.PutsWhole ∧
      (path longest).told put Fact.maxValueSize = .ok (toString longest) ∧
      (toString longest).utf8ByteSize = 121 ∧
      (path longest).told put 120 ≠ .ok (toString longest) ∧
      Path.ofText? (toString longest).toList = some longest ∧
      (preview datum).told put Fact.maxValueSize = .ok (String.ofList datum.text) ∧
      ['.', '.'] <:+ datum.text := by
  intro put longest datum
  have whole : put.PutsWhole := fun _ _ => rfl
  have length : longest.text.length = 121 := by decide +kernel
  have keeps := loses_nothing whole
  refine ⟨whole, (keeps.path longest).1, ?_, ?_, (keeps.path longest).2,
    keeps.told (.preview datum), (keeps.dots_iff 33 (List.replicate 33 0xab)).mpr (by decide)⟩
  · exact longest.oneByteEach_text.utf8ByteSize_ofList.trans length
  · intro uncut
    have fits := (keeps.told_iff 120 (.path longest)).mp uncut
    rw [text, length] at fits
    omega

end Identifier

end WalletConsent
