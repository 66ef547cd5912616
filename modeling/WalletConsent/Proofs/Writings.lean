import WalletConsent.Proofs.AddressPieces
import WalletConsent.Proofs.Requests

/-!
The texts that a flow puts together, each written piece by piece into a room of its own. Where a
piece finds no room, the whole text is given up, and another stands in for it. No text of a flow
comes to that, however large its numbers and however long its paths and names: each of them fits its
room, and it is what the step that writes it offers (`Content.written`, and for the pieces of an
address `Content.written_piece`).
-/

set_option autoImplicit false

namespace WalletConsent

/-- Stands in for a text that has found no room. -/
def encodingError : String := "ENCODE_ERR"

/-- A text to be written into a room. -/
structure Writing where
  room : Nat
  pieces : List Amount.Piece

namespace Writing

def chars (w : Writing) : List Char := w.pieces.flatMap Amount.Piece.chars

def text (w : Writing) : String := String.ofList w.chars

def path (p : Path) : Writing := ⟨Fact.maxValueSize, [.guarded p.text]⟩

/-- The room set aside for a number of keys. -/
def keysRoom : Nat := 24

def keys (count : UInt32) : Writing :=
  ⟨keysRoom, [.guarded (Nat.toDigits 10 count.toNat), .guarded " keys".toList]⟩

def ada (lovelace : UInt64) : Writing := ⟨Item.adaRoom, Amount.adaPieces lovelace.toNat⟩

def quantity (tokens : UInt64) : Writing :=
  ⟨Item.quantityRoom, [.guarded (Nat.toDigits 10 tokens.toNat)]⟩

def hex (bytes : List UInt8) : Writing := ⟨Fact.maxValueSize, [.guarded (Hex.ofBytes bytes)]⟩

def asset (policyId : Octets 28) (name : List UInt8) : Writing :=
  ⟨Fact.maxValueSize,
    [.guarded (Hex.ofBytes policyId.bytes), .guarded ['.'], .guarded (Hex.ofBytes name)]⟩

def preview (p : Preview) : Writing :=
  ⟨Fact.maxValueSize,
    [.guarded (Nat.toDigits 10 p.size.toNat), .guarded " bytes: ".toList,
      .guarded (Hex.ofBytes p.leading),
      .guarded (if p.leading.length < p.size.toNat then ['.', '.'] else [])]⟩

def pieceLabel (label : String) (number count : Nat) : Writing :=
  ⟨Fact.maxLabelSize,
    [.guarded label.toList, .guarded " (".toList, .guarded (Nat.toDigits 10 number),
      .guarded "/".toList, .guarded (Nat.toDigits 10 count), .guarded ")".toList]⟩

theorem chars_path (p : Path) : (path p).chars = p.text := List.append_nil _

theorem chars_asset (policyId : Octets 28) (name : List UInt8) :
    (asset policyId name).chars = Hex.ofBytes policyId.bytes ++ '.' :: Hex.ofBytes name := by
  simp [chars, asset, Amount.Piece.chars]

theorem chars_preview (p : Preview) : (preview p).chars = p.text := by
  simp [chars, preview, Amount.Piece.chars, Preview.text]

/-- A text that fits its room, and has a letter less than what would stand in for it. -/
structure Fits (w : Writing) : Prop where
  length_le : w.chars.length ≤ w.room
  without : 'E' ∉ w.chars

variable {w : Writing}

theorem Fits.fill_eq (fits : w.Fits) : Amount.fill w.room w.pieces = .text w.chars :=
  Amount.fill_of_le fits.length_le

theorem Fits.text_ne (fits : w.Fits) : w.text ≠ encodingError := by
  intro same
  have chars : w.chars = encodingError.toList := by
    rw [← same, text, String.toList_ofList]
  apply fits.without
  rw [chars]
  decide

theorem not_mem_toDigits (n : Nat) : 'E' ∉ Nat.toDigits 10 n :=
  WalletConsent.not_mem_toDigits n (by decide)

theorem not_mem_ofBytes (bytes : List UInt8) : 'E' ∉ Hex.ofBytes bytes :=
  Hex.not_mem_ofBytes bytes (by decide)

theorem fits_path (p : Path) : (path p).Fits := by
  constructor
  · rw [chars_path]
    exact Nat.le_trans p.length_text_le (by decide : 121 ≤ Fact.maxValueSize)
  · simp only [chars_path, Path.text, Segment.text, List.mem_cons, List.mem_flatMap,
      List.mem_append, not_or, not_exists, not_and]
    refine ⟨by decide, fun s _ => ⟨by decide, not_mem_toDigits _, ?_⟩⟩
    split <;> decide

theorem fits_keys (count : UInt32) : (keys count).Fits := by
  have digits := length_toDigits_word32 count
  constructor
  · simp [keys, chars, Amount.Piece.chars, keysRoom]
    omega
  · simp [keys, chars, Amount.Piece.chars, not_mem_toDigits]

theorem fits_quantity (tokens : UInt64) : (quantity tokens).Fits := by
  have digits := length_toDigits_word64 tokens
  constructor
  · simp [quantity, chars, Amount.Piece.chars, Item.quantityRoom]
    omega
  · simp [quantity, chars, Amount.Piece.chars, not_mem_toDigits]

theorem fits_ada {lovelace : UInt64} (signed : lovelace.toNat < Amount.signedLimit) :
    (ada lovelace).Fits := by
  constructor
  · have room : 24 ≤ Item.adaRoom := by decide
    exact Nat.le_trans (Amount.length_adaPieces_le signed) room
  · have digits := not_mem_toDigits
    simp only [ada, chars, Amount.flatMap_chars_adaPieces, Amount.flatMap_chars_fractionPieces,
      List.mem_append, not_or]
    refine ⟨digits _, ?_, by decide⟩
    split
    · exact List.not_mem_nil
    · simp only [List.mem_cons, List.mem_append, List.mem_replicate, not_or]
      refine ⟨by decide, by simp, ?_⟩
      intro among
      exact digits _ ((Amount.significant_sublist _).subset among)

theorem fits_hex {bytes : List UInt8} (short : 2 * bytes.length ≤ Fact.maxValueSize) :
    (hex bytes).Fits := by
  constructor
  · simpa [hex, chars, Amount.Piece.chars] using short
  · simp [hex, chars, Amount.Piece.chars, not_mem_ofBytes]

theorem fits_asset (policyId : Octets 28) {name : List UInt8}
    (short : name.length ≤ Flow.Content.maxNameLength) : (asset policyId name).Fits := by
  constructor
  · rw [chars_asset]
    exact Nat.le_trans (Item.length_asset_le policyId short) (by decide : 121 ≤ Fact.maxValueSize)
  · simp [chars_asset, not_mem_ofBytes]

theorem fits_preview (p : Preview) : (preview p).Fits := by
  constructor
  · rw [chars_preview]
    exact Nat.le_trans p.length_text_le (by decide : 84 ≤ Fact.maxValueSize)
  · simp only [chars_preview, Preview.text, List.mem_append, not_or]
    refine ⟨⟨⟨not_mem_toDigits _, by decide⟩, not_mem_ofBytes _⟩, ?_⟩
    split <;> decide

theorem fits_pieceLabel (c : Flow.Content) {number count : Nat} (number_lt : number < 10)
    (count_lt : count < 10) : (pieceLabel c.addressLabel number count).Fits := by
  have digit : ∀ n < 10, (Nat.toDigits 10 n).length = 1 := by decide
  have short : c.addressLabel.toList.length ≤ 20 := by
    unfold Flow.Content.addressLabel
    split <;> decide
  have without : 'E' ∉ c.addressLabel.toList := by
    unfold Flow.Content.addressLabel
    split <;> decide
  constructor
  · simp [pieceLabel, chars, Amount.Piece.chars, digit _ number_lt, digit _ count_lt,
      Fact.maxLabelSize] at short ⊢
    omega
  · simp [pieceLabel, chars, Amount.Piece.chars, not_mem_toDigits, without]

end Writing

namespace Item

def texts : Item → List String
  | fact f | pageFact f => [f.label, f.value]
  | warning message => [message.value]
  | prompt title subtitle | confirm title subtitle _ => [title.value, subtitle.value]

variable {label value message title subtitle : String} {statuses : Statuses} {item : Item}

theorem value_of_textOf {text : Text} (made : Text.of message = .ok text) :
    text.value = message := by
  unfold Text.of at made
  split at made
  · cases made
    rfl
  · cases made

theorem texts_of_fact? (made : fact? label value = .ok item) : item.texts = [label, value] := by
  unfold fact? Fact.of at made
  split at made
  · cases made
    rfl
  · cases made

theorem texts_of_warning? (made : warning? message = .ok item) : item.texts = [message] := by
  unfold warning? at made
  cases written : Text.of message with
  | error fault => cases written ▸ made
  | ok text =>
    cases written ▸ made
    exact congrArg (fun value => [value]) (value_of_textOf written)

theorem texts_of_prompt? (made : prompt? title subtitle = .ok item) :
    item.texts = [title, subtitle] := by
  obtain ⟨t, first, made⟩ := bind_eq_ok_iff.mp made
  obtain ⟨t', second, made⟩ := bind_eq_ok_iff.mp made
  cases made
  simp only [texts, value_of_textOf first, value_of_textOf second]

theorem texts_of_confirm? (made : confirm? title subtitle statuses = .ok item) :
    item.texts = [title, subtitle] := by
  obtain ⟨t, first, made⟩ := bind_eq_ok_iff.mp made
  obtain ⟨t', second, made⟩ := bind_eq_ok_iff.mp made
  cases made
  simp only [texts, value_of_textOf first, value_of_textOf second]

/-- An offer that shows what has been written for it, whole. -/
structure Written (writings : List Writing) (offer : Except Fault Item) : Prop where
  fits : ∀ w ∈ writings, w.Fits
  shown : ∀ w ∈ writings, ∀ item, offer = .ok item → w.text ∈ item.texts
  legible : ∀ item, offer = .ok item → encodingError ∉ item.texts

variable {offer : Except Fault Item} {texts : List String}

theorem Written.of_texts {writings : List Writing}
    (reads : ∀ item, offer = .ok item → item.texts = texts)
    (written : ∀ w ∈ writings, w.Fits ∧ w.text ∈ texts) (legible : encodingError ∉ texts) :
    Written writings offer where
  fits w among := (written w among).1
  shown w among item made := by
    rw [reads item made]
    exact (written w among).2
  legible item made := by
    rw [reads item made]
    exact legible

/-- Nothing has to be written for texts that are known beforehand. -/
theorem Written.known (reads : ∀ item, offer = .ok item → item.texts = texts)
    (legible : encodingError ∉ texts) : Written [] offer :=
  .of_texts reads (fun _ among => nomatch among) legible

theorem Written.one {w : Writing} (legible : label ≠ encodingError) (fits : w.Fits)
    (reads : ∀ item, offer = .ok item → item.texts = [label, w.text]) : Written [w] offer := by
  apply Written.of_texts reads
  · intro w' among
    cases List.mem_singleton.mp among
    exact ⟨fits, by simp⟩
  · simp [Ne.symm legible, Ne.symm fits.text_ne]

theorem Written.warning (legible : message ≠ encodingError) : Written [] (warning? message) := by
  apply Written.known (fun item => texts_of_warning?)
  simpa using Ne.symm legible

theorem Written.confirm (legible : title ≠ encodingError) :
    Written [] (confirm? title "" statuses) := by
  apply Written.known (fun item => texts_of_confirm?)
  simp only [List.mem_cons, List.not_mem_nil, or_false, not_or]
  exact ⟨Ne.symm legible, by decide⟩

theorem Written.fact {w : Writing} (legible : label ≠ encodingError) (fits : w.Fits)
    (written : w.text = value) : Written [w] (fact? label value) := by
  apply Written.one legible fits
  intro item made
  rw [written]
  exact texts_of_fact? made

theorem Written.path (legible : label ≠ encodingError) (path : Path) :
    Written [.path path] (path? label path) :=
  Written.fact legible (Writing.fits_path path) (congrArg String.ofList (Writing.chars_path path))

theorem Written.preview (legible : label ≠ encodingError) (p : Preview) :
    Written [.preview p] (preview? label p) :=
  Written.fact legible (Writing.fits_preview p) (congrArg String.ofList (Writing.chars_preview p))

theorem Written.quantity (tokens : UInt64) :
    Written [.quantity tokens]
      (fact? "Quantity" (Amount.quantity quantityRoom tokens)) := by
  have digits := length_toDigits_word64 tokens
  apply Written.fact _ (Writing.fits_quantity tokens)
  · rw [Amount.quantity, if_pos (Nat.le_trans digits (by decide))]
    exact congrArg String.ofList (List.append_nil _)
  · decide

theorem Written.asset (policyId : Octets 28) {name : List UInt8}
    (short : name.length ≤ Flow.Content.maxNameLength) :
    Written [.asset policyId name] (asset? policyId name) :=
  Written.fact (by decide) (Writing.fits_asset policyId short)
    (congrArg String.ofList (Writing.chars_asset policyId name))

theorem Written.datumHash (hash : Octets 32) :
    Written [.hex hash.bytes] (datum? (.hash hash)) := by
  have short : 2 * hash.bytes.length ≤ Fact.maxValueSize := by
    rw [hash.length_bytes]
    decide
  have whole : datum? (.hash hash) =
      fact? "Datum hash" (String.ofList (Hex.ofBytes hash.bytes)) := by
    rw [datum?, Hex.text, if_pos short]
    rfl
  rw [whole]
  apply Written.fact _ (Writing.fits_hex short)
  · exact congrArg String.ofList (List.append_nil _)
  · decide

theorem Written.keys (count : UInt32) :
    Written [.keys count]
      (confirm? "Export public keys" (toString count ++ " keys") .action) := by
  have legible : "Export public keys" ≠ encodingError := by decide
  have written : (Writing.keys count).text = toString count ++ " keys" := by
    simp only [Writing.text, Writing.chars, Writing.keys, List.flatMap_cons, List.flatMap_nil,
      List.append_nil, Amount.Piece.chars, String.ofList_append, String.ofList_toList]
    rfl
  apply Written.one legible (Writing.fits_keys count)
  intro item made
  rw [written]
  exact texts_of_confirm? made

end Item

namespace Flow

/-- The amount as it is written; one that has no text of its own is not. -/
def adaWritings (lovelace : UInt64) : List Writing :=
  if lovelace.toNat < Amount.signedLimit then [.ada lovelace] else []

/-- What a flow writes at a stage, apart from its address. -/
def Content.writings : Content → Stage → List Writing
  | keyExport path, .display | witness path, .display => [.path path]
  | keyBatch count, .confirm => [.keys count]
  | deriveAddress _ spending _ _, .path => [.path spending]
  | changeOutput _ path _ _ _, .paymentPath => [.path path]
  | deriveAddress _ _ staking _, .staking | changeOutput _ _ staking _ _, .stakingInfo =>
    staking.toList.map .path
  | output amount _ _, .amount | changeOutput amount _ _ _ _, .amount
  | collateral amount _, .amount => adaWritings amount
  | token policyId name _, .name => [.asset policyId name]
  | token _ _ tokens, .amount => [.quantity tokens]
  | datum (.hash hash), .display => [.hex hash.bytes]
  | datum (.inline preview), .display | script preview, .display => [.preview preview]
  | fee lovelace, .display => adaWritings lovelace
  | _, _ => []

/-- The writings of a scene, other than an address, are what it shows. -/
def Body.Written (writings : List Writing) : Body → Prop
  | .item offer => Item.Written writings offer
  | .pass => writings = []
  | .address _ _ => True

end Flow

namespace Item

theorem Written.ada {label : String} (labelFits : label.utf8ByteSize ≤ Fact.maxLabelSize)
    (legible : label ≠ encodingError) (lovelace : UInt64) :
    Written (Flow.adaWritings lovelace) (ada? label lovelace) := by
  obtain ⟨f, named, written, placed⟩ := exists_ada labelFits lovelace
  have reads : ∀ item, ada? label lovelace = .ok item → item.texts = [label, f.value] := by
    intro item made
    cases placed.symm.trans made
    rw [texts, named]
  unfold Flow.adaWritings
  split
  · rename_i signed
    have value : f.value = (Writing.ada lovelace).text :=
      Option.some.inj (written.symm.trans (Amount.ada?_adaRoom_of_lt signed))
    rw [value] at reads
    exact .one legible (Writing.fits_ada signed) reads
  · rename_i large
    have value : f.value = "VALUE_ERR" :=
      Option.some.inj (written.symm.trans (Amount.ada?_of_le (Nat.le_of_not_lt large)))
    rw [value] at reads
    apply Written.known reads
    simp only [List.mem_cons, List.not_mem_nil, or_false, not_or]
    exact ⟨Ne.symm legible, by decide⟩

end Item

namespace Flow

theorem Content.written {c : Content} (fits : c.fits = true) (policy : Policy) :
    ∀ scene ∈ c.scenes policy, scene.body.Written (c.writings scene.stage) := by
  cases c <;> simp only [scenes, List.forall_mem_cons, List.not_mem_nil,
    false_implies, implies_true, and_true]
  case keyExport path =>
    exact ⟨.warning (by decide), .known (fun _ => Item.texts_of_prompt?) (by decide),
      .path (by decide) path, .confirm (by decide)⟩
  case keyBatch count => exact .keys count
  case deriveAddress mode spending staking raw =>
    refine ⟨.warning (by decide), .path (by decide) spending, ?_, trivial, ?_⟩
    · cases staking with
      | none => rfl
      | some path => exact .path (by decide) path
    · cases mode with
      | onDevice => exact .confirm (by decide)
      | toHost => exact .confirm (by decide)
  case output amount raw bare =>
    exact ⟨.warning (by decide), trivial, .ada (by decide) (by decide) amount⟩
  case changeOutput amount path staking raw carriesDatum =>
    refine ⟨?_, ?_, .path (by decide) path, ?_, ?_, .ada (by decide) (by decide) amount⟩
    · split
      · exact .warning (by decide)
      · exact .known (fun _ => Item.texts_of_prompt?) (by decide)
    · split
      · exact .warning (by decide)
      · rfl
    · cases staking with
      | none => exact .known (fun _ => Item.texts_of_fact?) (by decide)
      | some path => exact .path (by decide) path
    · cases raw with
      | none => rfl
      | some raw => trivial
  case collateral amount raw =>
    exact ⟨.known (fun _ => Item.texts_of_prompt?) (by decide), trivial,
      .ada (by decide) (by decide) amount⟩
  case token policyId name tokens =>
    have short : name.length ≤ maxNameLength := of_decide_eq_true fits
    exact ⟨.asset policyId short, .quantity tokens⟩
  case datum d =>
    cases d with
    | hash hash => exact .datumHash hash
    | inline preview => exact .preview (by decide) preview
  case script preview => exact .preview (by decide) preview
  case outputConfirm => exact .confirm (by decide)
  case fee lovelace => exact .ada (by decide) (by decide) lovelace
  case witness path => exact ⟨.warning (by decide), .path (by decide) path⟩
  case txConfirm => exact .confirm (by decide)

/-- What a flow writes for a piece of its address: its number, if there are more, and its bytes. -/
def Content.pieceWritings (c : Content) (raw : List UInt8) (n : Nat) : List Writing :=
  (if 1 < Address.pieceCount raw then
    [.pieceLabel c.addressLabel (n + 1) (Address.pieceCount raw)] else []) ++
    [.hex ((raw.drop (Address.pieceLength * n)).take Address.pieceLength)]

theorem Content.written_piece {c : Content} {raw : List UInt8} {n : Nat}
    (few : Address.pieceCount raw ≤ 2) (inside : n < Address.pieceCount raw) :
    Item.Written (c.pieceWritings raw n) (Item.piece? c.addressLabel raw n) := by
  obtain ⟨f, piece, made⟩ :=
    Item.exists_piece c.utf8ByteSize_addressLabel_le few inside
  have short : 2 * ((raw.drop (Address.pieceLength * n)).take Address.pieceLength).length ≤
      Fact.maxValueSize := by
    rw [List.length_take, Address.pieceLength, Fact.maxValueSize]
    omega
  have reads : ∀ item, Item.piece? c.addressLabel raw n = .ok item →
      item.texts = [f.label, f.value] := by
    intro item offered
    cases made.symm.trans offered
    split <;> rfl
  have bytes : (Writing.hex ((raw.drop (Address.pieceLength * n)).take
      Address.pieceLength)).Fits := Writing.fits_hex short
  have value : (Writing.hex ((raw.drop (Address.pieceLength * n)).take
      Address.pieceLength)).text = f.value :=
    (congrArg String.ofList (List.append_nil _)).trans piece.value.symm
  unfold Content.pieceWritings
  by_cases more : 1 < Address.pieceCount raw
  · have number : (Writing.pieceLabel c.addressLabel (n + 1) (Address.pieceCount raw)).Fits :=
      Writing.fits_pieceLabel c (by omega) (by omega)
    have label : (Writing.pieceLabel c.addressLabel (n + 1) (Address.pieceCount raw)).text =
        f.label := by
      rw [piece.label, Address.pieceLabel, if_pos more]
      simp only [Writing.text, Writing.chars, Writing.pieceLabel, List.flatMap_cons,
        List.flatMap_nil, List.append_nil, Amount.Piece.chars, String.ofList_append,
        String.ofList_toList, String.append_assoc]
      rfl
    rw [if_pos more]
    apply Item.Written.of_texts reads
    · simp [number, label, bytes, value]
    · simp [← label, ← value, Ne.symm number.text_ne, Ne.symm bytes.text_ne]
  · have label : encodingError ≠ f.label := by
      rw [piece.label, Address.pieceLabel, if_neg more]
      unfold Content.addressLabel
      split <;> decide
    rw [if_neg more]
    apply Item.Written.of_texts reads
    · simp [bytes, value]
    · simp [label, ← value, Ne.symm bytes.text_ne]

end Flow

end WalletConsent
