import WalletConsent.Proofs.Offers
import WalletConsent.Proofs.Sizes

/-!
The scenes of every flow are sound: whatever paths, amounts, hashes and addresses it is about, each
text fits its fact or screen, so the only item ever refused is a piece of an empty address. A flow
entered under an interactive policy has something to show, and never more than seven items.
-/

set_option autoImplicit false

namespace WalletConsent

namespace Item

theorem fact?_of_fits {label value : String} (labelFits : label.utf8ByteSize ≤ Fact.maxLabelSize)
    (valueFits : value.utf8ByteSize ≤ Fact.maxValueSize) :
    fact? label value = .ok (.fact ⟨label, value, labelFits, valueFits⟩) :=
  congrArg (Functor.map Item.fact) (dif_pos ⟨labelFits, valueFits⟩)

theorem isOk_fact? {label value : String} (labelFits : label.utf8ByteSize ≤ Fact.maxLabelSize)
    (valueFits : value.utf8ByteSize ≤ Fact.maxValueSize) : (fact? label value).isOk = true := by
  rw [fact?_of_fits labelFits valueFits]
  rfl

theorem isOk_path? {label : String} (labelFits : label.utf8ByteSize ≤ Fact.maxLabelSize)
    (path : Path) : (path? label path).isOk = true :=
  isOk_fact? labelFits path.utf8ByteSize_toString_le

/-- Every amount finds its place in a fact. -/
theorem exists_ada {label : String} (labelFits : label.utf8ByteSize ≤ Fact.maxLabelSize)
    (lovelace : UInt64) :
    ∃ f : Fact, f.label = label ∧ Amount.ada? adaRoom lovelace = some f.value ∧
      ada? label lovelace = .ok (.fact f) := by
  obtain ⟨value, written, short⟩ := Amount.ada?_adaRoom lovelace
  have valueFits : value.utf8ByteSize ≤ Fact.maxValueSize := Nat.le_trans short (by decide)
  refine ⟨⟨label, value, labelFits, valueFits⟩, rfl, written, ?_⟩
  rw [ada?, written]
  exact fact?_of_fits labelFits valueFits

theorem isOk_ada? {label : String} (labelFits : label.utf8ByteSize ≤ Fact.maxLabelSize)
    (lovelace : UInt64) : (ada? label lovelace).isOk = true := by
  obtain ⟨f, -, -, placed⟩ := exists_ada labelFits lovelace
  rw [placed]
  rfl

theorem isOk_preview? {label : String} (labelFits : label.utf8ByteSize ≤ Fact.maxLabelSize)
    (p : Preview) : (preview? label p).isOk = true :=
  isOk_fact? labelFits p.utf8ByteSize_text_le

theorem isOk_asset? (policyId : Octets 28) {name : List UInt8}
    (short : name.length ≤ Flow.Content.maxNameLength) : (asset? policyId name).isOk = true := by
  apply isOk_fact? (by decide)
  rw [(oneByteEach_asset policyId name).utf8ByteSize_ofList]
  exact Nat.le_trans (length_asset_le policyId short) (by decide)

theorem isOk_datum? (d : Datum) : (datum? d).isOk = true := by
  cases d with
  | hash hash =>
    have short : 2 * hash.bytes.length ≤ Fact.maxValueSize := by rw [hash.length_bytes]; decide
    have fits : (String.ofList (Hex.ofBytes hash.bytes)).utf8ByteSize ≤ Fact.maxValueSize := by
      rw [(Hex.oneByteEach_ofBytes _).utf8ByteSize_ofList, Hex.length_ofBytes]
      exact short
    rw [datum?, Hex.text, if_pos short]
    exact isOk_fact? (by decide) fits
  | inline preview => exact isOk_preview? (by decide) preview

theorem isOk_confirm_keys (count : UInt32) :
    (confirm? "Export public keys" (toString count ++ " keys") .action).isOk = true := by
  have digits : (toString count).utf8ByteSize ≤ 10 := by
    change (String.ofList (Nat.toDigits 10 count.toNat)).utf8ByteSize ≤ 10
    rw [(oneByteEach_toDigits _).utf8ByteSize_ofList]
    exact length_toDigits_word32 count
  have unit : " keys".utf8ByteSize = 5 := by decide
  have fits : (toString count ++ " keys").utf8ByteSize ≤ Text.maxSize := by
    rw [String.utf8ByteSize_append, unit, Text.maxSize]
    omega
  have title : Text.of "Export public keys" = .ok ⟨"Export public keys", by decide⟩ := rfl
  rw [confirm?, title, Text.of, dif_pos fits]
  rfl

end Item

namespace Address

theorem utf8ByteSize_pieceLabel_le {label : String} {raw : List UInt8} {n : Nat}
    (labelShort : label.utf8ByteSize ≤ 20) (few : pieceCount raw ≤ 2)
    (inside : n < pieceCount raw) :
    (pieceLabel label raw n).utf8ByteSize ≤ Fact.maxLabelSize := by
  rw [pieceLabel]
  split
  · have two : pieceCount raw = 2 := by omega
    have number : ∀ k < 3, (toString k).utf8ByteSize = 1 := by decide
    have marks : " (".utf8ByteSize = 2 ∧ "/".utf8ByteSize = 1 ∧ ")".utf8ByteSize = 1 := by decide
    simp only [String.utf8ByteSize_append, number (n + 1) (by omega),
      number (pieceCount raw) (by omega), marks, Fact.maxLabelSize]
    omega
  · exact Nat.le_trans labelShort (by decide)

/-- A fact that shows a piece of an address. -/
structure IsPiece (label : String) (raw : List UInt8) (n : Nat) (f : Fact) : Prop where
  label : f.label = pieceLabel label raw n
  value : f.value = String.ofList (Hex.ofBytes ((raw.drop (pieceLength * n)).take pieceLength))

end Address

/-- Every piece that an address has finds its place in a fact. -/
theorem Item.exists_piece {label : String} {raw : List UInt8} {n : Nat}
    (labelShort : label.utf8ByteSize ≤ 20) (few : Address.pieceCount raw ≤ 2)
    (inside : n < Address.pieceCount raw) :
    ∃ f, Address.IsPiece label raw n f ∧
      piece? label raw n = .ok (if n = 0 then .pageFact f else .fact f) := by
  have short : 2 * ((raw.drop (Address.pieceLength * n)).take Address.pieceLength).length ≤
      Fact.maxValueSize := by
    rw [List.length_take, Address.pieceLength, Fact.maxValueSize]
    omega
  have labelFits := Address.utf8ByteSize_pieceLabel_le labelShort few inside
  have valueFits : (String.ofList (Hex.ofBytes
      ((raw.drop (Address.pieceLength * n)).take Address.pieceLength))).utf8ByteSize ≤
      Fact.maxValueSize := by
    rw [(Hex.oneByteEach_ofBytes _).utf8ByteSize_ofList, Hex.length_ofBytes]
    exact short
  refine ⟨⟨_, _, labelFits, valueFits⟩, ⟨rfl, rfl⟩, ?_⟩
  rw [piece?, Address.piece?, if_pos inside]
  simp only [Hex.text, if_pos short]
  change (if n = 0 then _ else _ : Except Fault Item) = _
  split
  · rw [pageFact?, Fact.of, dif_pos ⟨labelFits, valueFits⟩]
    rfl
  · exact fact?_of_fits labelFits valueFits

theorem Item.isOk_piece? {label : String} {raw : List UInt8} {n : Nat}
    (labelShort : label.utf8ByteSize ≤ 20) (few : Address.pieceCount raw ≤ 2)
    (inside : n < Address.pieceCount raw) : (piece? label raw n).isOk = true := by
  obtain ⟨f, -, placed⟩ := exists_piece labelShort few inside
  rw [placed]
  rfl

theorem Policy.check_of_ne_deny {policy : Policy} (admitted : policy ≠ .deny) :
    policy.check = .ok policy := by
  cases policy with
  | deny => contradiction
  | _ => rfl

namespace Flow

/-- Whatever the scene offers in vain is a piece of an empty address. -/
def Body.Sound (body : Body) : Prop :=
  ∀ fault, .error fault ∈ body.offers 0 → fault = .invalidLength ∧ body.address? = some []

theorem Body.Sound.pass : Body.pass.Sound := by
  intro fault refused
  cases refused

theorem Body.Sound.item {offer : Except Fault Item} (good : offer.isOk = true) :
    (Body.item offer).Sound := by
  intro fault refused
  rw [← List.mem_singleton.mp refused] at good
  cases good

theorem Body.Sound.address {label : String} {raw : List UInt8}
    (labelShort : label.utf8ByteSize ≤ 20) (short : raw.length ≤ Address.maxLength) :
    (Body.address label raw).Sound := by
  have few := Address.pieceCount_le short
  intro fault refused
  by_cases empty : raw = []
  · subst empty
    cases List.mem_singleton.mp refused
    exact ⟨rfl, rfl⟩
  · have some := Address.pieceCount_pos empty
    have good : ∀ n, n < Address.pieceCount raw → Item.piece? label raw n ≠ .error fault := by
      intro n inside refused
      have good := Item.isOk_piece? labelShort few inside
      rw [refused] at good
      cases good
    simp only [Body.offers, List.mem_cons, List.mem_map, List.mem_range'_1] at refused
    rcases refused with first | ⟨n, ⟨-, inside⟩, later⟩
    · exact absurd first.symm (good 0 some)
    · exact absurd later (good n (by omega))

theorem Body.length_offers_address_le {label : String} {raw : List UInt8}
    (short : raw.length ≤ Address.maxLength) :
    ((Body.address label raw).offers 0).length ≤ 2 := by
  have few := Address.pieceCount_le short
  simp only [offers, List.length_cons, List.length_map, List.length_range']
  omega

namespace Content

variable {c : Content}

theorem sound (fits : c.fits = true) (policy : Policy) :
    ∀ scene ∈ c.scenes policy, scene.body.Sound := by
  have address : ∀ raw label, c.address? = some raw → label.utf8ByteSize ≤ 20 →
      (Body.address label raw).Sound := fun raw label shows labelShort =>
    .address labelShort (length_le_of_address? fits shows)
  cases c <;> simp only [scenes, List.forall_mem_cons, List.not_mem_nil,
    false_implies, implies_true, and_true]
  case keyExport path =>
    exact ⟨.item rfl, .item rfl, .item (Item.isOk_path? (by decide) path),
      .item rfl⟩
  case keyBatch count => exact .item (Item.isOk_confirm_keys count)
  case deriveAddress mode spending staking raw =>
    refine ⟨.item rfl, .item (Item.isOk_path? (by decide) spending), ?_,
      address raw _ rfl (by decide), ?_⟩
    · cases staking with
      | none => exact .pass
      | some path => exact .item (Item.isOk_path? (by decide) path)
    · cases mode <;> exact .item rfl
  case output amount raw bare =>
    exact ⟨.item rfl, address raw _ rfl (by decide),
      .item (Item.isOk_ada? (by decide) amount)⟩
  case changeOutput amount path staking raw carriesDatum =>
    refine ⟨?_, ?_, .item (Item.isOk_path? (by decide) path), ?_, ?_,
      .item (Item.isOk_ada? (by decide) amount)⟩
    · split <;> exact .item rfl
    · split
      · exact .item rfl
      · exact .pass
    · cases staking with
      | none => exact .item rfl
      | some path => exact .item (Item.isOk_path? (by decide) path)
    · cases raw with
      | none => exact .pass
      | some raw => exact address raw _ rfl (by decide)
  case collateral amount raw =>
    exact ⟨.item rfl, address raw _ rfl (by decide),
      .item (Item.isOk_ada? (by decide) amount)⟩
  case token policyId name quantity =>
    have short : name.length ≤ maxNameLength := of_decide_eq_true fits
    exact ⟨.item (Item.isOk_asset? policyId short),
      .item (Item.isOk_fact? (by decide) (Amount.utf8ByteSize_quantity_le quantity))⟩
  case datum d => exact .item (Item.isOk_datum? d)
  case script preview => exact .item (Item.isOk_preview? (by decide) preview)
  case outputConfirm => exact .item rfl
  case fee lovelace => exact .item (Item.isOk_ada? (by decide) lovelace)
  case witness path => exact ⟨.item rfl, .item (Item.isOk_path? (by decide) path)⟩
  case txConfirm => exact .item rfl

/-- Only an empty address makes a script offer what is refused. -/
theorem fault_of_sceneOffers {policy : Policy} {fault : Fault} (fits : c.fits = true)
    (refused : .error fault ∈ sceneOffers (c.scenes policy)) :
    fault = .invalidLength ∧ c.address? = some [] := by
  obtain ⟨scene, inside, refused⟩ := List.mem_flatMap.mp refused
  obtain ⟨length, empty⟩ := c.sound fits policy scene inside fault refused
  have shown : [] ∈ c.address?.toList := by
    rw [← c.filterMap_address?_scenes policy]
    exact List.mem_filterMap.mpr ⟨scene, inside, empty⟩
  exact ⟨length, Option.mem_toList.mp shown⟩

/-- A change output with a datum and a long address offers the most. -/
theorem length_sceneOffers_le (fits : c.fits = true) (policy : Policy) :
    (sceneOffers (c.scenes policy)).length ≤ 7 := by
  have address : ∀ raw label, c.address? = some raw →
      ((Body.address label raw).offers 0).length ≤ 2 := fun raw label shows =>
    Body.length_offers_address_le (length_le_of_address? fits shows)
  cases c with
  | deriveAddress mode spending staking raw =>
    have := address raw "Address" rfl
    cases staking <;> simp [sceneOffers, scenes, Body.offers] at this ⊢ <;> omega
  | output amount raw bare =>
    have := address raw "Send to address" rfl
    simp [sceneOffers, scenes, Body.offers] at this ⊢
    omega
  | changeOutput amount path staking raw carriesDatum =>
    cases raw with
    | none => cases carriesDatum <;> simp [sceneOffers, scenes, Body.offers]
    | some raw =>
      have := address raw "Address" rfl
      cases carriesDatum <;> simp [sceneOffers, scenes, Body.offers] at this ⊢ <;> omega
  | collateral amount raw =>
    have := address raw "Collateral return" rfl
    simp [sceneOffers, scenes, Body.offers] at this ⊢
    omega
  | _ => simp [sceneOffers, scenes, Body.offers]

/-- The last scene of every flow shows an item. -/
theorem getLast?_scenes (c : Content) (policy : Policy) :
    ∃ stage offer, (c.scenes policy).getLast? = some ⟨stage, .item offer⟩ := by
  cases c <;> exact ⟨_, _, rfl⟩

/-- A flow enters its script at a scene, or behind the last one when nothing is asked. -/
theorem entry?_le_length {policy : Policy} {entry : Nat} (enters : c.entry? policy = some entry) :
    entry ≤ (c.scenes policy).length ∧
      (policy.isInteractive = true → entry < (c.scenes policy).length) := by
  rw [length_scenes]
  cases c with
  | output amount raw bare =>
    cases policy <;> cases bare <;>
      simp_all [Policy.isInteractive, entry?, kind, Kind.stages] <;> omega
  | _ => cases policy <;> simp_all [Policy.isInteractive, entry?, kind, Kind.stages] <;> omega

end Content

theorem of_eq_ok_iff {policy : Policy} {content : Content} {f : Flow} :
    Flow.of policy content = .ok f ↔
      f.content = content ∧ f.policy = policy ∧ policy ≠ .deny ∧
        ∃ entry, content.entry? policy = some entry ∧ f.step = Step.ofScene entry := by
  obtain ⟨content', policy', step, fits⟩ := f
  unfold Flow.of
  by_cases denied : policy = .deny
  · subst denied
    simp [Policy.check, bind, Except.bind]
  · rw [Policy.check_of_ne_deny denied]
    simp only [bind, Except.bind]
    cases content.entry? policy with
    | none => simp [throw, throwThe, MonadExceptOf.throw]
    | some entry =>
      dsimp only
      split
      · simp [pure, Except.pure]
        grind
      · simp [throw, throwThe, MonadExceptOf.throw]
        grind

theorem exists_of_fits {policy : Policy} {content : Content} {entry : Nat}
    (admitted : policy ≠ .deny) (enters : content.entry? policy = some entry)
    (fits : content.fits = true) : ∃ f, Flow.of policy content = .ok f :=
  ⟨⟨content, policy, Step.ofScene entry, fits⟩,
    of_eq_ok_iff.mpr ⟨rfl, rfl, admitted, entry, enters, rfl⟩⟩

theorem of_of_not_fits {policy : Policy} {content : Content} {entry : Nat}
    (admitted : policy ≠ .deny) (enters : content.entry? policy = some entry)
    (long : content.fits = false) : Flow.of policy content = .error .invalidLength := by
  rw [Flow.of, Policy.check_of_ne_deny admitted]
  simp only [bind, Except.bind, enters, long]
  rfl

/-- The items of a flow from its step on, in order. -/
def items (f : Flow) : List Item := (f.offers f.step).filterMap Except.toOption

theorem map_ok_filterMap_toOption {offers : List (Except Fault Item)}
    (good : ∀ fault, .error fault ∉ offers) :
    (offers.filterMap Except.toOption).map .ok = offers := by
  induction offers with
  | nil => rfl
  | cons offer offers ih =>
    cases offer with
    | error fault => exact absurd List.mem_cons_self (good fault)
    | ok item =>
      have rest := ih fun fault refused => good fault (List.mem_cons_of_mem _ refused)
      change Except.ok item :: (offers.filterMap Except.toOption).map Except.ok = _
      rw [rest]

variable {policy : Policy} {content : Content} {f : Flow}

theorem offers_eq_sceneOffers (built : Flow.of policy content = .ok f) :
    ∃ entry, content.entry? policy = some entry ∧
      f.offers f.step = sceneOffers ((content.scenes policy).drop entry) := by
  obtain ⟨rfl, rfl, -, entry, enters, stands⟩ := of_eq_ok_iff.mp built
  have few := f.length_scenes_le
  have inside : entry ≤ f.scenes.length := (Content.entry?_le_length enters).1
  have small : (Step.ofScene entry).scene.toNat = entry := Step.toNat_scene_ofScene (by omega)
  refine ⟨entry, enters, ?_⟩
  rw [stands, offers_of_piece_eq_zero rfl, small, scenes]

/-- What is allowed is not asked about. -/
theorem offers_of_allow (built : Flow.of .allow content = .ok f) : f.offers f.step = [] := by
  obtain ⟨entry, enters, offered⟩ := offers_eq_sceneOffers built
  cases enters
  rw [offered, ← Content.length_scenes .allow, List.drop_length]
  rfl

theorem fault_of_offers {fault : Fault} (built : Flow.of policy content = .ok f)
    (refused : .error fault ∈ f.offers f.step) :
    fault = .invalidLength ∧ content.address? = some [] := by
  obtain ⟨entry, -, offered⟩ := offers_eq_sceneOffers built
  obtain ⟨rfl, -⟩ := of_eq_ok_iff.mp built
  rw [offered] at refused
  obtain ⟨scene, inside, refused⟩ := List.mem_flatMap.mp refused
  exact Content.fault_of_sceneOffers f.fits
    (List.mem_flatMap.mpr ⟨scene, List.mem_of_mem_drop inside, refused⟩)

/-- Every item of a built flow has its place, unless the address to be shown is empty. -/
theorem offers_eq_map_items (built : Flow.of policy content = .ok f)
    (filled : content.address? ≠ some []) : f.offers f.step = f.items.map .ok := by
  refine (map_ok_filterMap_toOption ?_).symm
  intro fault refused
  exact filled (fault_of_offers built refused).2

theorem length_items_le (built : Flow.of policy content = .ok f) : f.items.length ≤ 7 := by
  obtain ⟨entry, -, offered⟩ := offers_eq_sceneOffers built
  obtain ⟨rfl, -⟩ := of_eq_ok_iff.mp built
  have whole := Content.length_sceneOffers_le f.fits policy
  have part := List.length_filterMap_le Except.toOption (f.offers f.step)
  rw [← List.take_append_drop entry (f.content.scenes policy), sceneOffers, List.flatMap_append,
    List.length_append] at whole
  rw [offered, sceneOffers] at part
  rw [items, offered, sceneOffers]
  omega

theorem offers_ne_nil (built : Flow.of policy content = .ok f)
    (interactive : policy.isInteractive = true) : f.offers f.step ≠ [] := by
  obtain ⟨entry, enters, offered⟩ := offers_eq_sceneOffers built
  obtain ⟨stage, offer, last⟩ := content.getLast?_scenes policy
  have inside := (Content.entry?_le_length enters).2 interactive
  have reached : ⟨stage, .item offer⟩ ∈ (content.scenes policy).drop entry := by
    apply List.mem_of_getLast?
    rw [List.getLast?_drop, if_neg (by omega), last]
  rw [offered]
  exact List.ne_nil_of_mem (List.mem_flatMap.mpr ⟨_, reached, List.mem_singleton.mpr rfl⟩)

/-- An interactive policy leaves something to show. -/
theorem items_ne_nil (built : Flow.of policy content = .ok f)
    (interactive : policy.isInteractive = true) (sound : f.offers f.step = f.items.map .ok) :
    f.items ≠ [] := by
  intro none
  have offered := offers_ne_nil built interactive
  rw [sound, none] at offered
  exact offered rfl

end Flow

end WalletConsent
