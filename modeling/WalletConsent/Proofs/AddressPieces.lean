import WalletConsent.Proofs.Itinerary

/-!
An address on the display. It comes in pieces of 64 bytes, a fact each, and the first of them opens
a page. Every flow that shows an address has one scene for it, which no entry leaves out, so
accepting all the way shows the address whole. A piece that another one follows leaves no room on
its page; where nothing but a confirmation comes behind the address, its pages hold nothing else.
-/

set_option autoImplicit false

namespace WalletConsent

namespace Address

/-- Facts that show an address piece by piece: in hexadecimal, and numbered if there are several. -/
structure Spells (label : String) (raw : List UInt8) (facts : List Fact) : Prop where
  count : facts.length = (raw.length + 63) / 64
  labels : facts.map Fact.label =
    if facts.length = 1 then [label]
    else (List.range facts.length).map fun i =>
      label ++ " (" ++ toString (i + 1) ++ "/" ++ toString facts.length ++ ")"
  values : ∃ pieces : List (List UInt8),
    facts.map (fun f => Hex.toBytes? f.value.toList) = pieces.map some ∧ pieces.flatten = raw

variable {label : String} {raw : List UInt8} {n : Nat} {f : Fact}

theorem IsPiece.toBytes? (piece : IsPiece label raw n f) :
    Hex.toBytes? f.value.toList = some ((raw.drop (pieceLength * n)).take pieceLength) := by
  rw [piece.value, String.toList_ofList, Hex.toBytes?_ofBytes]

/-- A full piece leaves one line of its page. -/
theorem IsPiece.lines (piece : IsPiece label raw n f)
    (full : pieceLength * (n + 1) ≤ raw.length) : f.lines = 9 := by
  have whole : ((raw.drop (pieceLength * n)).take pieceLength).length = 64 := by
    rw [List.length_take, List.length_drop]
    rw [pieceLength] at full ⊢
    omega
  rw [Fact.lines, piece.value, (Hex.oneByteEach_ofBytes _).utf8ByteSize_ofList,
    Hex.length_ofBytes, whole]
  rfl

theorem spells_one (short : raw.length ≤ pieceLength) (filled : raw ≠ [])
    (piece : IsPiece label raw 0 f) : Spells label raw [f] := by
  have some := pieceCount_pos filled
  have few := mt one_lt_pieceCount_iff.mp (Nat.not_lt_of_le short)
  have one : pieceCount raw = 1 := by omega
  refine ⟨one.symm, ?_, [raw], ?_, List.flatten_singleton⟩
  · rw [List.map_singleton, piece.label, pieceLabel, one]
    rfl
  · rw [List.map_singleton, piece.toBytes?, Nat.mul_zero, List.drop_zero,
      List.take_of_length_le short]
    rfl

theorem spells_two {g : Fact} (long : pieceLength < raw.length) (short : raw.length ≤ maxLength)
    (first : IsPiece label raw 0 f) (second : IsPiece label raw 1 g) :
    Spells label raw [f, g] := by
  have two : pieceCount raw = 2 :=
    Nat.le_antisymm (pieceCount_le short) (one_lt_pieceCount_iff.mpr long)
  have behind : (raw.drop (pieceLength * 1)).length ≤ pieceLength := by
    rw [maxLength] at short
    rw [List.length_drop, pieceLength]
    omega
  refine ⟨two.symm, ?_, [raw.take pieceLength, raw.drop pieceLength], ?_, ?_⟩
  · rw [List.map_cons, List.map_singleton, first.label, second.label, pieceLabel, pieceLabel, two]
    rfl
  · rw [List.map_cons, List.map_singleton, first.toBytes?, second.toBytes?,
      List.take_of_length_le behind]
    rfl
  · rw [List.flatten_cons, List.flatten_singleton, List.take_append_drop]

end Address

namespace Flow

/-- An address offers its pieces, the first of them at the top of a page. -/
structure Body.OffersPieces (label : String) (raw : List UInt8) (first : Fact)
    (rest : List Fact) : Prop where
  offers : (Body.address label raw).offers 0 =
    .ok (.pageFact first) :: (rest.map Item.fact).map .ok
  spells : Address.Spells label raw (first :: rest)
  few : rest.length ≤ 1
  full : rest ≠ [] → first.lines = 9

theorem Body.exists_offersPieces {label : String} {raw : List UInt8}
    (labelShort : label.utf8ByteSize ≤ 20) (short : raw.length ≤ Address.maxLength)
    (filled : raw ≠ []) : ∃ first rest, Body.OffersPieces label raw first rest := by
  have few := Address.pieceCount_le short
  have some := Address.pieceCount_pos filled
  obtain ⟨first, opening, placed⟩ := Item.exists_piece labelShort few some
  by_cases long : Address.pieceLength < raw.length
  · have more := Address.one_lt_pieceCount_iff.mpr long
    obtain ⟨second, closing, placed'⟩ := Item.exists_piece labelShort few more
    refine ⟨first, [second], ?_, Address.spells_two long short opening closing, Nat.le_refl 1,
      fun _ => opening.lines (Nat.le_of_lt long)⟩
    rw [Body.offers_address_of_lt more, Body.offers_address_of_le few, placed, placed']
    rfl
  · have last := Nat.le_of_not_lt (mt Address.one_lt_pieceCount_iff.mp long)
    refine ⟨first, [], ?_, Address.spells_one (Nat.le_of_not_lt long) filled opening, Nat.zero_le 1,
      absurd rfl⟩
    rw [Body.offers_address_of_le last, placed]
    rfl

end Flow

/-- The pieces of an address fill their pages, one each, up to the next question. -/
theorem Layout.pages_of_pieces {first : Fact} {rest : List Fact} (few : rest.length ≤ 1)
    (full : rest ≠ [] → first.lines = 9) (style : ConfirmStyle) (title subtitle : Text)
    (statuses : Statuses) :
    pages style [first] (rest.map .fact ++ [.confirm title subtitle statuses]) =
      (first :: rest).map fun f => [f] := by
  cases rest with
  | nil => rfl
  | cons second rest =>
    have none : rest = [] := List.eq_nil_of_length_eq_zero (by simpa using few)
    have some := second.two_le_lines
    have nine := full (by simp)
    have exceeds : ¬ Page.lines [first] + second.lines ≤ Page.maxLines := by
      simp only [Page.lines, Page.maxLines]
      omega
    subst none
    rw [List.map_singleton, List.singleton_append, pages, extend, if_neg exceeds]
    rfl

namespace Flow

theorem Kind.nodup_stages (k : Kind) : k.stages.Nodup := by
  cases k <;> decide

/-- The label of the address that a flow shows. -/
def Content.addressLabel : Content → String
  | output .. => "Send to address"
  | collateral .. => "Collateral return"
  | _ => "Address"

theorem Content.utf8ByteSize_addressLabel_le (c : Content) :
    c.addressLabel.utf8ByteSize ≤ 20 := by
  unfold addressLabel
  split <;> decide

/-- A flow that shows an address enters at its first scene or at the one behind it. -/
theorem Content.entry?_le_one {c : Content} {raw : List UInt8} {policy : Policy} {entry : Nat}
    (shows : c.address? = some raw) (interactive : policy.isInteractive = true)
    (enters : c.entry? policy = some entry) : entry ≤ 1 := by
  cases c with
  | deriveAddress | changeOutput | collateral =>
    cases policy <;> simp [Policy.isInteractive, entry?] at interactive enters <;> omega
  | output amount bytes bare =>
    cases policy <;> cases bare <;> simp [Policy.isInteractive, entry?] at interactive enters <;>
      omega
  | _ => cases shows

/-- A flow that shows an address has a scene for it, behind the scenes where it can enter. -/
theorem Content.exists_scenes_eq {c : Content} {raw : List UInt8} (shows : c.address? = some raw)
    (policy : Policy) :
    ∃ front back, c.scenes policy = front ++ ⟨.address, .address c.addressLabel raw⟩ :: back ∧
      1 ≤ front.length ∧
      (c.kind = .deriveAddress → ∃ title subtitle statuses,
        sceneOffers back = [.ok (.confirm title subtitle statuses)]) := by
  cases c with
  | deriveAddress mode spending staking bytes =>
    cases shows
    refine ⟨[_, _, _], [_], rfl, by simp, fun _ => ?_⟩
    cases mode <;> exact ⟨_, _, _, rfl⟩
  | output amount bytes bare =>
    cases shows
    exact ⟨[_], [_], rfl, by simp, fun other => nomatch other⟩
  | changeOutput amount path staking bytes carriesDatum =>
    cases shows
    exact ⟨[_, _, _, _], [_], rfl, by simp, fun other => nomatch other⟩
  | collateral amount bytes =>
    cases shows
    exact ⟨[_], [_], rfl, by simp, fun other => nomatch other⟩
  | _ => cases shows

/-- The steps among others that show an address. -/
def addressSteps (f : Flow) (steps : List Step) : List Step :=
  steps.filter fun s => f.kind.stageAt s = .address

/-- The facts that those steps bring. -/
def addressFacts (f : Flow) (steps : List Step) : List Fact :=
  (f.addressSteps steps).flatMap f.factsAt

/-- Steps and pages that show an address whole, each of its bytes once and in order. -/
structure ShowsAddress (f : Flow) (raw : List UInt8) (steps : List Step) (pages : List Page) :
    Prop where
  /-- The pages show what the steps bring. -/
  shown : pages.flatten = steps.flatMap f.factsAt
  spells : Address.Spells f.content.addressLabel raw (f.addressFacts steps)
  /-- The first piece opens a page; a derived address has its pages for itself. -/
  placed : ∃ before after earlier first rest later,
    steps = before ++ f.addressSteps steps ++ after ∧
      pages = earlier ++ (first :: rest) :: later ∧
      earlier.flatten = before.flatMap f.factsAt ∧
      (f.addressFacts steps).head? = some first ∧
      (f.kind = .deriveAddress →
        (first :: rest) :: later = (f.addressFacts steps).map fun fact => [fact])

variable {f : Flow} {i : Nat}

theorem stageAt_eq_address_iff (there : f.kind.stages[i]? = some .address) (t : Step) :
    f.kind.stageAt t = .address ↔ t.scene.toNat = i := by
  obtain ⟨inside, -⟩ := List.getElem?_eq_some_iff.mp there
  constructor
  · intro stage
    have found : f.kind.stages[t.scene.toNat]? = some .address := by
      cases here : f.kind.stages[t.scene.toNat]? with
      | none =>
        rw [Kind.stageAt, here] at stage
        cases stage
      | some other =>
        rw [Kind.stageAt, here] at stage
        exact congrArg some stage
    exact ((List.getElem?_inj inside f.kind.nodup_stages).mp (there.trans found.symm)).symm
  · intro same
    rw [Kind.stageAt, same, there]
    rfl

theorem addressSteps_append {before own after : List Step}
    (there : f.kind.stages[i]? = some .address) (earlier : ∀ t ∈ before, t.scene.toNat < i)
    (here : ∀ t ∈ own, t.scene.toNat = i) (later : ∀ t ∈ after, i < t.scene.toNat) :
    f.addressSteps (before ++ own ++ after) = own := by
  have none : f.addressSteps before = [] := by
    apply List.filter_eq_nil_iff.mpr
    intro t among
    have := earlier t among
    simp only [decide_eq_true_eq, stageAt_eq_address_iff there]
    omega
  have all : f.addressSteps own = own := by
    apply List.filter_eq_self.mpr
    intro t among
    exact decide_eq_true ((stageAt_eq_address_iff there t).mpr (here t among))
  have none' : f.addressSteps after = [] := by
    apply List.filter_eq_nil_iff.mpr
    intro t among
    have := later t among
    simp only [decide_eq_true_eq, stageAt_eq_address_iff there]
    omega
  rw [addressSteps] at none all none' ⊢
  rw [List.filter_append, List.filter_append, none, all, none', List.nil_append, List.append_nil]

/-- On its way a flow comes through all pieces of the address that it shows. -/
structure Passes (f : Flow) (before own after : List Step) (first : Fact) (rest : List Fact) :
    Prop where
  split : f.ahead f.step = before ++ own ++ after
  address : f.addressSteps (f.ahead f.step) = own
  pieces : f.itemsAt own = .pageFact first :: rest.map .fact
  confirmed : f.kind = .deriveAddress → ∃ title subtitle statuses,
    f.itemsAt after = [.confirm title subtitle statuses]

variable {policy : Policy} {content : Content} {raw : List UInt8}

theorem exists_passes (built : Flow.of policy content = .ok f)
    (interactive : policy.isInteractive = true) (shows : content.address? = some raw)
    {first : Fact} {rest : List Fact}
    (offers : Body.OffersPieces content.addressLabel raw first rest) :
    ∃ before own after, f.Passes before own after first rest := by
  obtain ⟨rfl, rfl, -, entry, enters, stands⟩ := of_eq_ok_iff.mp built
  have few := f.length_scenes_le
  have early := Content.entry?_le_one shows interactive enters
  obtain ⟨front, back, scenes, behind, last⟩ := Content.exists_scenes_eq shows f.policy
  have all : f.scenes = front ++ ⟨.address, .address f.content.addressLabel raw⟩ :: back := scenes
  have inside : front.length + 1 ≤ f.scenes.length := by
    rw [all, List.length_append, List.length_cons]
    omega
  have next : (Step.ofScene (front.length + 1)).scene.toNat = front.length + 1 :=
    Step.toNat_scene_ofScene (by omega)
  obtain ⟨before, split, earlier⟩ :=
    exists_ahead_ofScene (Nat.le_trans early behind) (Nat.le_of_succ_le inside)
  obtain ⟨own, split', within⟩ := exists_ahead_ofScene (Nat.le_succ front.length) inside
  have there : f.kind.stages[front.length]? = some .address := by
    rw [kind, ← Content.map_stage_scenes f.policy, scenes]
    simp
  have address : f.scenes[front.length]? =
      some ⟨.address, .address f.content.addressLabel raw⟩ := by
    rw [all]
    simp
  have whole : f.ahead f.step =
      before ++ own ++ f.ahead (Step.ofScene (front.length + 1)) := by
    rw [stands, split, split', List.append_assoc]
  refine ⟨before, own, f.ahead (Step.ofScene (front.length + 1)), whole, ?_, ?_, ?_⟩
  · rw [whole]
    refine addressSteps_append there (fun t among => (earlier t among).2) ?_ ?_
    · intro t among
      have bounds := within t among
      omega
    · intro t among
      have bound := scene_le_of_mem_ahead among
      omega
  · rw [itemsAt_scene address split', offers.offers]
    simp [Except.toOption, Function.comp_def]
  · intro derives
    obtain ⟨title, subtitle, statuses, confirms⟩ := last derives
    refine ⟨title, subtitle, statuses, ?_⟩
    have rest : f.scenes.drop (front.length + 1) = back := by
      rw [all]
      simp
    rw [itemsAt, filterMap_offer?_ahead, offers_of_piece_eq_zero rfl, next, rest, confirms]
    rfl

/-- An empty address has no piece, and is refused when its turn comes. -/
theorem refuses_of_empty (built : Flow.of policy content = .ok f)
    (interactive : policy.isInteractive = true) (empty : content.address? = some []) :
    .error .invalidLength ∈ f.offers f.step := by
  obtain ⟨entry, enters, offered⟩ := offers_eq_sceneOffers built
  have early := Content.entry?_le_one empty interactive enters
  obtain ⟨front, back, scenes, behind, -⟩ := Content.exists_scenes_eq empty policy
  have refused : .error .invalidLength ∈ (Body.address content.addressLabel []).offers 0 :=
    List.mem_cons_self
  rw [offered, scenes, List.drop_append_of_le_length (Nat.le_trans early behind)]
  exact List.mem_flatMap.mpr ⟨_, List.mem_append_right _ List.mem_cons_self, refused⟩

/-- Going through the pieces of its address, a flow shows the address. -/
theorem Passes.showsAddress {before own after : List Step} {first : Fact} {rest : List Fact}
    (passes : f.Passes before own after first rest)
    (offers : Body.OffersPieces f.content.addressLabel raw first rest) (style : ConfirmStyle) :
    f.ShowsAddress raw (f.ahead f.step) (Layout.pages style [] f.items) := by
  have facts : f.addressFacts (f.ahead f.step) = first :: rest := by
    rw [addressFacts, passes.address, flatMap_factsAt, passes.pieces]
    simp [Item.facts, List.flatMap_map]
  have items : f.items =
      f.itemsAt before ++ .pageFact first :: (rest.map .fact ++ f.itemsAt after) := by
    rw [items_eq_itemsAt_ahead, passes.split, itemsAt_append, itemsAt_append, passes.pieces,
      List.append_assoc]
    rfl
  have pages : Layout.pages style [] f.items = Layout.pages style [] (f.itemsAt before) ++
      Layout.pages style [first] (rest.map .fact ++ f.itemsAt after) := by
    rw [items, Layout.pages, Layout.extend_append_pageFact, List.filterMap_append]
    rfl
  have filled : [first] ≠ [] := List.cons_ne_nil first []
  obtain ⟨more, later, opens⟩ :=
    Layout.exists_pages_eq_cons style filled (rest.map .fact ++ f.itemsAt after)
  constructor
  case shown =>
    rw [Layout.flatten_pages, List.nil_append, items_eq_itemsAt_ahead, flatMap_factsAt]
  case spells =>
    rw [facts]
    exact offers.spells
  case placed =>
    refine ⟨before, after, Layout.pages style [] (f.itemsAt before), first, more, later, ?_, ?_, ?_,
      ?_, ?_⟩
    · rw [passes.address]
      exact passes.split
    · rw [pages, opens]
      rfl
    · rw [Layout.flatten_pages, flatMap_factsAt]
      rfl
    · rw [facts]
      rfl
    · intro derives
      obtain ⟨title, subtitle, statuses, confirms⟩ := passes.confirmed derives
      rw [confirms, Layout.pages_of_pieces offers.few offers.full] at opens
      rw [facts]
      exact opens.symm

end Flow

namespace Session

/-- Accepting all the way to the approval shows the address of a flow, every byte of it once and in
order. -/
theorem start_accept_shows_address {s : Session} {policy : Policy} {content : Flow.Content}
    {flow : Flow} {raw : List UInt8} (reachable : s.Reachable) (idle : s.phase = .idle)
    (built : Flow.of policy content = .ok flow) (interactive : policy.isInteractive = true)
    (shows : content.address? = some raw) (filled : raw ≠ []) (style : ConfirmStyle) :
    ∃ n,
      let replies := s.run (.start (some flow) style :: List.replicate n (.respond .accept))
      replies.map Reply.result = List.replicate n (.ok .pending) ++ [.ok (.exit true)] ∧
        flow.ShowsAddress raw (replies.flatMap Reply.steps)
          ((replies.flatMap Reply.screens).filterMap Screen.page?) := by
  refine ⟨(Layout.screens style flow.items).length, ?_⟩
  have some : content.address? ≠ some [] := by simpa [shows] using filled
  have sound := Flow.offers_eq_map_items built some
  have calm := reachable.tidy.calm idle
  have walks := walks_start calm idle sound style
  have steps := steps_start_accept calm idle sound style
  obtain ⟨rfl, -⟩ := Flow.of_eq_ok_iff.mp built
  have short := flow.content.length_le_of_address? flow.fits shows
  obtain ⟨first, rest, offers⟩ := Flow.Body.exists_offersPieces
    flow.content.utf8ByteSize_addressLabel_le short filled
  obtain ⟨before, own, after, passes⟩ := Flow.exists_passes built interactive shows offers
  constructor
  · exact walks.results
  · rw [steps, run, perform, walks.screens]
    exact passes.showsAddress offers style

/-- An address of 70 bytes, shown on the device. -/
theorem start_accept_shows_address_of_two_pieces :
    let raw : List UInt8 := List.replicate 70 7
    let flow : Flow :=
      ⟨.deriveAddress .onDevice ⟨[0x8000002c, 0x80000717, 0x80000000, 0, 0], by decide⟩ none raw,
        .present, .ofScene 1, rfl⟩
    ∃ n,
      let replies :=
        Session.run {} (.start (some flow) .full :: List.replicate n (.respond .accept))
      replies.map Reply.result = List.replicate n (.ok .pending) ++ [.ok (.exit true)] ∧
        flow.ShowsAddress raw (replies.flatMap Reply.steps)
          ((replies.flatMap Reply.screens).filterMap Screen.page?) := by
  intro raw flow
  have built : Flow.of .present flow.content = .ok flow := rfl
  exact start_accept_shows_address .fresh rfl built rfl rfl (by decide) .full

end Session

end WalletConsent
