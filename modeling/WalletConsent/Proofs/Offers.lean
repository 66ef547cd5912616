import WalletConsent.Flow.Basic
import WalletConsent.Proofs.Layout

/-!
A flow from a step on is the list of items that it still offers the display: an address offers its
pieces one by one, a scene that passes offers nothing. Handling a step approves when nothing is
left, passes over to a later step, or offers one item; driving a flow therefore plays its offers to
the display until one of them is rendered or refused (`Flow.drive_plays`).
-/

set_option autoImplicit false

namespace WalletConsent

namespace Address

variable {raw : List UInt8}

theorem pieceCount_le (short : raw.length ≤ maxLength) : pieceCount raw ≤ 2 := by
  simp only [pieceCount, pieceLength, maxLength] at short ⊢
  omega

theorem pieceCount_pos (filled : raw ≠ []) : 0 < pieceCount raw := by
  have some := List.length_pos_iff.mpr filled
  simp only [pieceCount, pieceLength]
  omega

theorem one_lt_pieceCount_iff : 1 < pieceCount raw ↔ pieceLength < raw.length := by
  simp only [pieceCount, pieceLength]
  omega

end Address

namespace Flow

/-- What a scene offers from a piece of its address on. A piece that the address lacks is offered
all the same, and refused. -/
def Body.offers (piece : Nat) : Body → List (Except Fault Item)
  | .item offer => [offer]
  | .address label raw =>
    Item.piece? label raw piece ::
      (List.range' (piece + 1) (Address.pieceCount raw - (piece + 1))).map (Item.piece? label raw)
  | .pass => []

def sceneOffers (scenes : List Scene) : List (Except Fault Item) :=
  scenes.flatMap fun scene => scene.body.offers 0

/-- What a flow offers from a step on. -/
def offers (f : Flow) (s : Step) : List (Except Fault Item) :=
  match f.scenes.drop s.scene.toNat with
  | [] => []
  | scene :: later => scene.body.offers s.piece.toNat ++ sceneOffers later

/-- What a flow offers at a step alone. -/
def offer? (f : Flow) (s : Step) : Option (Except Fault Item) :=
  match (f.scenes[s.scene.toNat]?).map Scene.body with
  | some (.item item) => some item
  | some (.address label raw) => some (Item.piece? label raw s.piece.toNat)
  | some .pass | none => none

theorem Body.offers_address_of_lt {label : String} {raw : List UInt8} {piece : Nat}
    (more : piece + 1 < Address.pieceCount raw) :
    (Body.address label raw).offers piece =
      Item.piece? label raw piece :: (Body.address label raw).offers (piece + 1) := by
  have count : Address.pieceCount raw - (piece + 1) =
      Address.pieceCount raw - (piece + 1 + 1) + 1 := by omega
  rw [offers, offers, count, List.range'_succ, List.map_cons]

theorem Body.offers_address_of_le {label : String} {raw : List UInt8} {piece : Nat}
    (last : Address.pieceCount raw ≤ piece + 1) :
    (Body.address label raw).offers piece = [Item.piece? label raw piece] := by
  rw [offers, Nat.sub_eq_zero_of_le last, List.range'_zero, List.map_nil]

theorem length_scenes_le (f : Flow) : f.scenes.length ≤ 6 := by
  rw [scenes, Content.length_scenes]
  cases f.content.kind <;> decide

def Body.address? : Body → Option (List UInt8)
  | .address _ raw => some raw
  | _ => none

namespace Content

/-- The address that a flow shows, if there is one. -/
def address? : Content → Option (List UInt8)
  | deriveAddress _ _ _ raw | output _ raw _ | collateral _ raw => some raw
  | changeOutput _ _ _ raw _ => raw
  | _ => none

theorem filterMap_address?_scenes (c : Content) (policy : Policy) :
    (c.scenes policy).filterMap (fun scene => scene.body.address?) = c.address?.toList := by
  cases c with
  | deriveAddress mode spending staking raw => cases staking <;> rfl
  | changeOutput amount path staking raw carriesDatum => cases raw <;> cases carriesDatum <;> rfl
  | _ => rfl

theorem length_le_of_address? {c : Content} {raw : List UInt8} (fits : c.fits = true)
    (shows : c.address? = some raw) : raw.length ≤ Address.maxLength := by
  cases c with
  | changeOutput amount path staking raw carriesDatum =>
    cases raw <;> simp_all [address?, Content.fits]
  | _ => simp_all [address?, Content.fits]

end Content

/-- An address that a flow shows has at most two pieces. -/
theorem pieceCount_le_of_address {f : Flow} {scene : Scene} {label : String} {raw : List UInt8}
    (membership : scene ∈ f.scenes) (shows : scene.body = .address label raw) :
    Address.pieceCount raw ≤ 2 := by
  have shown : raw ∈ f.content.address?.toList := by
    rw [← f.content.filterMap_address?_scenes f.policy]
    exact List.mem_filterMap.mpr ⟨scene, membership, by rw [shows, Body.address?]⟩
  exact Address.pieceCount_le
    (f.content.length_le_of_address? f.fits (Option.mem_toList.mp shown))

namespace Step

theorem toNat_scene_ofScene {i : Nat} (small : i < 256) : (ofScene i).scene.toNat = i := by
  rw [ofScene, UInt8.toNat_ofNat']
  exact Nat.mod_eq_of_lt small

theorem nextScene_eq (s : Step) : s.nextScene = ofScene (s.scene.toNat + 1) := by
  have advanced : s.scene + 1 = UInt8.ofNat (s.scene.toNat + 1) := by
    rw [UInt8.ofNat_add, UInt8.ofNat_toNat]
    rfl
  rw [nextScene, ofScene, advanced]

theorem toNat_nextScene {s : Step} (small : s.scene.toNat < 255) :
    s.nextScene.scene.toNat = s.scene.toNat + 1 := by
  rw [nextScene, UInt8.toNat_add]
  exact Nat.mod_eq_of_lt (Nat.succ_lt_succ small)

theorem place_lt_nextScene {s : Step} (small : s.scene.toNat < 255) :
    Ranked.place s < Ranked.place s.nextScene := by
  have next := toNat_nextScene small
  have := s.piece.toNat_lt
  change 256 * s.scene.toNat + s.piece.toNat < 256 * s.nextScene.scene.toNat + 0
  omega

theorem toNat_nextPiece {s : Step} (small : s.piece.toNat < 255) :
    s.nextPiece.piece.toNat = s.piece.toNat + 1 := by
  rw [nextPiece, UInt8.toNat_add]
  exact Nat.mod_eq_of_lt (Nat.succ_lt_succ small)

theorem place_lt_nextPiece {s : Step} (small : s.piece.toNat < 255) :
    Ranked.place s < Ranked.place s.nextPiece := by
  have next := toNat_nextPiece small
  change 256 * s.scene.toNat + s.piece.toNat < 256 * s.scene.toNat + s.nextPiece.piece.toNat
  omega

end Step

variable {f : Flow} {s : Step} {scene : Scene}

theorem offers_of_piece_eq_zero (fresh : s.piece = 0) :
    f.offers s = sceneOffers (f.scenes.drop s.scene.toNat) := by
  rw [offers, fresh]
  cases f.scenes.drop s.scene.toNat <;> rfl

theorem offers_eq_append_nextScene (here : f.scenes[s.scene.toNat]? = some scene) :
    f.offers s = scene.body.offers s.piece.toNat ++ f.offers s.nextScene := by
  obtain ⟨inside, rfl⟩ := List.getElem?_eq_some_iff.mp here
  have few := f.length_scenes_le
  have next : s.nextScene.scene.toNat = s.scene.toNat + 1 := Step.toNat_nextScene (by omega)
  rw [offers_of_piece_eq_zero (s := s.nextScene) rfl, next, offers,
    List.drop_eq_getElem_cons inside]

/-- The step behind a step. There is none where a flow responds. -/
def next? (f : Flow) (s : Step) : Option Step :=
  (f.scenes[s.scene.toNat]?).map fun scene =>
    match scene.body with
    | .address _ raw =>
      if s.piece.toNat + 1 < Address.pieceCount raw then s.nextPiece else s.nextScene
    | .item _ | .pass => s.nextScene

/-- Handling a step offers what the step has, and goes on at the step behind it. -/
theorem handle_eq (f : Flow) (s : Step) (d : Display) :
    f.handle s d =
      match f.next? s with
      | none => { result := .ok .approve, display := d }
      | some next =>
        match f.offer? s with
        | none => { result := .ok (.goto next), display := d }
        | some offer => (d.offer offer).map (Shown.andThen next) := by
  unfold handle next? offer?
  cases f.scenes[s.scene.toNat]? with
  | none => rfl
  | some scene => cases shows : scene.body <;> simp [shows]

theorem next?_eq_none_iff : f.next? s = none ↔ f.scenes.length ≤ s.scene.toNat := by
  rw [next?, Option.map_eq_none_iff, List.getElem?_eq_none_iff]

theorem offer?_of_next?_eq_none (last : f.next? s = none) : f.offer? s = none := by
  rw [offer?, List.getElem?_eq_none_iff.mpr (next?_eq_none_iff.mp last)]
  rfl

theorem offers_of_next?_eq_none (last : f.next? s = none) : f.offers s = [] := by
  rw [offers, List.drop_eq_nil_of_le (next?_eq_none_iff.mp last)]

/-- The step behind a step is the next piece of its address, or opens the next scene. -/
inductive Precedes (f : Flow) (s next : Step) : Prop
  | piece {label : String} {raw : List UInt8} (inside : s.scene.toNat < f.scenes.length)
      (shows : f.scenes[s.scene.toNat].body = .address label raw)
      (more : s.piece.toNat + 1 < Address.pieceCount raw)
      (few : Address.pieceCount raw ≤ 2) (stands : next = s.nextPiece)
  | scene (inside : s.scene.toNat < f.scenes.length)
      (done : ∀ label raw, f.scenes[s.scene.toNat].body = .address label raw →
        Address.pieceCount raw ≤ s.piece.toNat + 1)
      (stands : next = s.nextScene)

theorem precedes_of_next? {next : Step} (following : f.next? s = some next) :
    f.Precedes s next := by
  obtain ⟨scene, here, stands⟩ := Option.map_eq_some_iff.mp following
  obtain ⟨inside, rfl⟩ := List.getElem?_eq_some_iff.mp here
  cases shows : f.scenes[s.scene.toNat].body with
  | pass | item offer =>
    rw [shows] at stands
    refine .scene inside (fun label raw other => ?_) stands.symm
    rw [shows] at other
    cases other
  | address label raw =>
    rw [shows] at stands
    dsimp only at stands
    split at stands
    · rename_i more
      have few := pieceCount_le_of_address (List.getElem_mem inside) shows
      exact .piece inside shows more few stands.symm
    · rename_i last
      refine .scene inside (fun label' raw' other => ?_) stands.symm
      rw [shows] at other
      cases other
      exact Nat.le_of_not_lt last

/-- Neither the number of a scene nor that of a piece wraps: scenes are six at most, pieces two. -/
theorem place_lt_of_next? {next : Step} (following : f.next? s = some next) :
    Ranked.place s < Ranked.place next := by
  have few := f.length_scenes_le
  cases precedes_of_next? following with
  | piece inside shows more pieces stands =>
    subst stands
    exact Step.place_lt_nextPiece (by omega)
  | scene inside done stands =>
    subst stands
    exact Step.place_lt_nextScene (by omega)

/-- Steps go through the scenes without leaving one out. -/
theorem scene_of_next? {next : Step} (following : f.next? s = some next) :
    next.scene = s.scene ∨
      s.scene.toNat < f.scenes.length ∧ next = Step.ofScene (s.scene.toNat + 1) := by
  cases precedes_of_next? following with
  | piece inside shows more pieces stands =>
    subst stands
    exact .inl rfl
  | scene inside done stands => exact .inr ⟨inside, stands.trans s.nextScene_eq⟩

theorem offers_of_next? {next : Step} (following : f.next? s = some next) :
    f.offers s = (f.offer? s).toList ++ f.offers next := by
  cases precedes_of_next? following with
  | @piece label raw inside shows more pieces stands =>
    subst stands
    have here : f.scenes[s.scene.toNat]? = some f.scenes[s.scene.toNat] :=
      List.getElem?_eq_getElem inside
    have still : f.scenes[s.nextPiece.scene.toNat]? = some f.scenes[s.scene.toNat] := here
    have advanced : s.nextPiece.piece.toNat = s.piece.toNat + 1 :=
      Step.toNat_nextPiece (by omega)
    rw [offers_eq_append_nextScene here, offers_eq_append_nextScene still, advanced, offer?, here,
      Option.map_some, shows, Body.offers_address_of_lt more]
    rfl
  | scene inside done stands =>
    subst stands
    have here : f.scenes[s.scene.toNat]? = some f.scenes[s.scene.toNat] :=
      List.getElem?_eq_getElem inside
    rw [offers_eq_append_nextScene here, offer?, here, Option.map_some]
    cases shows : f.scenes[s.scene.toNat].body with
    | pass => rfl
    | item offer => rfl
    | address label raw =>
      rw [Body.offers_address_of_le (done label raw shows)]
      rfl

end Flow

namespace Display

/-- Offers played to a display until one is rendered or refused, and the offers then left. -/
def play (d : Display) : List (Except Fault Item) → Outcome Progress × List (Except Fault Item)
  | [] => ({ result := .ok .complete, display := d }, [])
  | offer :: offers =>
    let o := d.offer offer
    match o.result with
    | .error fault => ({ o with result := .error fault }, offer :: offers)
    | .ok .rendered => ({ o with result := .ok .suspended }, offers)
    | .ok .nothing =>
      let (rest, left) := o.display.play offers
      ({ rest with rendered := o.rendered ++ rest.rendered }, left)

/-- Playing sound items gathers them all, or brings out the next screen and leaves the rest. -/
inductive Plays (d : Display) (items : List Item) :
    Outcome Progress × List (Except Fault Item) → Prop
  | completes {d' : Display} (gathers : d.Gathers items d' []) :
      Plays d items ({ result := .ok .complete, display := d' }, [])
  | suspends {d' : Display} {screen : Screen} {later : List Item}
      (brings : d.Brings items screen d' later) :
      Plays d items
        ({ result := .ok .suspended, display := d', rendered := [.screen screen] },
          later.map .ok)

theorem plays {d : Display} (free : d.deferred = none) (items : List Item) :
    d.Plays items (d.play (items.map .ok)) := by
  induction items generalizing d with
  | nil => exact .completes ⟨free, rfl, rfl, rfl, rfl⟩
  | cons item items ih =>
    have step := steps_put free item items
    rw [List.map_cons, play, offer]
    generalize d.put item = o at step
    cases step with
    | brings brings => exact .suspends brings
    | @gathers d' gathers =>
      have rest := ih gathers.free
      dsimp only
      generalize d'.play (items.map .ok) = played at rest
      cases rest with
      | completes further => exact .completes (gathers.trans further)
      | suspends brings => exact .suspends (gathers.brings brings)

/-- What playing any offers at all renders: one screen if it suspends, and otherwise nothing. It
completes only if nothing among them is refused. -/
inductive Renders (d : Display) (offers : List (Except Fault Item)) : Outcome Progress → Prop
  | completes {d' : Display} (good : ∀ fault, .error fault ∉ offers) (free : d'.deferred = none) :
      Renders d offers { result := .ok .complete, display := d' }
  | suspends {d' : Display} {screen : Screen} (poses : d'.Poses screen) :
      Renders d offers
        { result := .ok .suspended, display := d', rendered := [.screen screen] }
  | fails {d' : Display} {fault : Fault} (offered : .error fault ∈ offers) :
      Renders d offers { result := .error fault, display := d' }

theorem renders_play {d : Display} (free : d.deferred = none)
    (offers : List (Except Fault Item)) : d.Renders offers (d.play offers).1 := by
  induction offers generalizing d with
  | nil => exact .completes (fun fault refused => nomatch refused) free
  | cons offer offers ih =>
    cases offer with
    | error fault => exact .fails List.mem_cons_self
    | ok item =>
      have step := steps_put free item []
      rw [play, Display.offer]
      generalize d.put item = o at step
      cases step with
      | brings brings => exact .suspends brings.toPoses
      | @gathers d' gathers =>
        have rest := ih gathers.free
        dsimp only
        generalize d'.play offers = played at rest
        obtain ⟨played, left⟩ := played
        cases rest with
        | completes good free =>
          refine .completes (fun fault refused => ?_) free
          cases refused with
          | tail _ later => exact good fault later
        | suspends poses => exact .suspends poses
        | fails offered => exact .fails (List.mem_cons_of_mem _ offered)

end Display

namespace Flow

/-- All that driving a flow can do: steps pass or gather what they offer until one of them approves,
shows a screen or is refused. -/
inductive Drives (f : Flow) : Step → Display → Driven Step → Prop
  | approves {s : Step} {d : Display} (last : f.next? s = none) (offered : f.offer? s = none)
      (left : f.offers s = []) :
      Drives f s d ⟨.ok .complete, s, d, [], [s]⟩
  | passes {s next : Step} {d : Display} {driven : Driven Step} (following : f.next? s = some next)
      (offered : f.offer? s = none) (left : f.offers s = f.offers next)
      (rest : Drives f next d driven) :
      Drives f s d { driven with handled := s :: driven.handled }
  | refuses {s next : Step} {d : Display} {offer : Except Fault Item} {fault : Fault}
      (following : f.next? s = some next) (offered : f.offer? s = some offer)
      (left : f.offers s = offer :: f.offers next)
      (refused : (d.offer offer).result = .error fault) :
      Drives f s d ⟨.error fault, s, (d.offer offer).display, (d.offer offer).rendered, [s]⟩
  | renders {s next : Step} {d : Display} {offer : Except Fault Item}
      (following : f.next? s = some next) (offered : f.offer? s = some offer)
      (left : f.offers s = offer :: f.offers next)
      (shown : (d.offer offer).result = .ok .rendered) :
      Drives f s d
        ⟨.ok .suspended, next, (d.offer offer).display, (d.offer offer).rendered, [s]⟩
  | gathers {s next : Step} {d : Display} {offer : Except Fault Item} {driven : Driven Step}
      (following : f.next? s = some next) (offered : f.offer? s = some offer)
      (left : f.offers s = offer :: f.offers next)
      (shown : (d.offer offer).result = .ok .nothing)
      (rest : Drives f next (d.offer offer).display driven) :
      Drives f s d
        { driven with
          rendered := (d.offer offer).rendered ++ driven.rendered
          handled := s :: driven.handled }

theorem drives (f : Flow) (s : Step) (d : Display) : f.Drives s d (drive f.handle s d) := by
  -- The places behind the step get fewer.
  generalize size : Ranked.size Step - Ranked.place s = n
  induction n using Nat.strongRecOn generalizing s d with
  | ind n ih =>
    subst size
    cases following : f.next? s with
    | none =>
      have handled : f.handle s d = { result := .ok .approve, display := d } := by
        rw [handle_eq, following]
      rw [drive_of_approve (by rw [handled]), handled]
      exact .approves following (offer?_of_next?_eq_none following)
        (offers_of_next?_eq_none following)
    | some next =>
      have later := place_lt_of_next? following
      have left := offers_of_next? following
      have room := Ranked.place_lt next
      cases offered : f.offer? s with
      | none =>
        have handled : f.handle s d = { result := .ok (.goto next), display := d } := by
          rw [handle_eq, following, offered]
        have rest := ih _ (by omega) next d rfl
        rw [offered, Option.toList_none, List.nil_append] at left
        rw [drive_of_goto (by rw [handled]) later, handled]
        exact .passes following offered left rest
      | some offer =>
        have handled : f.handle s d = (d.offer offer).map (Shown.andThen next) := by
          rw [handle_eq, following, offered]
        have result : (f.handle s d).result = (d.offer offer).result.map (Shown.andThen next) := by
          rw [handled, Outcome.map]
        rw [offered, Option.toList_some, List.singleton_append] at left
        cases offering : (d.offer offer).result with
        | error fault =>
          rw [offering] at result
          rw [drive_of_error result, handled]
          exact .refuses following offered left offering
        | ok shown =>
          rw [offering] at result
          cases shown with
          | rendered =>
            rw [drive_of_wait result later, handled]
            exact .renders following offered left offering
          | nothing =>
            have rest := ih _ (by omega) next (d.offer offer).display rfl
            rw [drive_of_goto result later, handled]
            exact .gathers following offered left offering rest

/-- Driving a flow plays its offers: the outcome is that of the play, and the flow then stands
where the offers left begin. -/
theorem drive_plays (f : Flow) (s : Step) (d : Display) :
    let driven := drive f.handle s d
    (⟨driven.result, driven.display, driven.rendered⟩, f.offers driven.step) =
      d.play (f.offers s) := by
  have drives := f.drives s d
  generalize drive f.handle s d = driven at drives
  dsimp only
  induction drives with
  | approves last offered left => rw [left, Display.play]
  | passes following offered left rest ih => rw [left, ← ih]
  | refuses following offered left refused => rw [left, Display.play, refused]
  | renders following offered left shown => rw [left, Display.play, shown]
  | gathers following offered left shown rest ih => rw [left, Display.play, shown, ← ih]

/-- The statuses that a step brings, if it asks for a confirmation. -/
def statusesAt (f : Flow) (s : Step) : Option Statuses :=
  (f.offer? s).bind fun offer => offer.toOption.bind Item.statuses?

/-- The statuses of the last confirmation asked for among the steps. -/
def confirmed (f : Flow) (steps : List Step) : Option Statuses :=
  (steps.filterMap f.statusesAt).getLast?

theorem confirmed_append (f : Flow) (steps steps' : List Step) :
    f.confirmed (steps ++ steps') = (f.confirmed steps').or (f.confirmed steps) := by
  rw [confirmed, List.filterMap_append, List.getLast?_append]
  rfl

theorem confirmed_singleton (f : Flow) (s : Step) : f.confirmed [s] = f.statusesAt s := by
  cases asked : f.statusesAt s <;> simp [confirmed, asked]

theorem confirmed_cons (f : Flow) (s : Step) (steps : List Step) :
    f.confirmed (s :: steps) = (f.confirmed steps).or (f.statusesAt s) := by
  rw [← List.singleton_append, confirmed_append, confirmed_singleton]

theorem statuses_turn (d : Display) (t : Pager.Turn) :
    (d.turn t).display.statuses = d.statuses := by
  obtain ⟨pager, page⟩ := t
  cases page <;> rfl

theorem statuses_place (d : Display) (screen : Screen) :
    (d.place screen).display.statuses = d.statuses := by
  unfold Display.place
  split
  · rfl
  · split <;> rfl

/-- A confirmation is in force from when it is offered, even if its screen then finds no place. -/
theorem statuses_offer (d : Display) (offer : Except Fault Item) :
    (d.offer offer).display.statuses = (offer.toOption.bind Item.statuses?).or d.statuses := by
  cases offer with
  | error fault => rfl
  | ok item =>
    cases item with
    | fact f => exact statuses_turn _ _
    | pageFact f => exact statuses_turn _ _
    | warning message => exact statuses_place _ _
    | prompt title subtitle => exact statuses_place _ _
    | confirm title subtitle statuses => exact statuses_place _ _

/-- The statuses in force after driving a flow are those of the last confirmation handled. -/
theorem statuses_drive (f : Flow) (s : Step) (d : Display) :
    (drive f.handle s d).display.statuses =
      (f.confirmed (drive f.handle s d).handled).or d.statuses := by
  have asked : ∀ {s : Step} {offer : Except Fault Item}, f.offer? s = some offer →
      f.statusesAt s = offer.toOption.bind Item.statuses? := by
    intro s offer offered
    rw [statusesAt, offered]
    rfl
  have quiet : ∀ {s : Step}, f.offer? s = none → f.statusesAt s = none := by
    intro s offered
    rw [statusesAt, offered]
    rfl
  have drives := f.drives s d
  generalize drive f.handle s d = driven at drives
  induction drives with
  | approves last offered left => rw [confirmed_singleton, quiet offered, Option.none_or]
  | passes following offered left rest ih => rw [confirmed_cons, quiet offered, Option.or_none, ih]
  | refuses following offered left refused =>
    rw [confirmed_singleton, asked offered, statuses_offer]
  | renders following offered left shown => rw [confirmed_singleton, asked offered, statuses_offer]
  | gathers following offered left shown rest ih =>
    rw [confirmed_cons, asked offered, ih, statuses_offer, Option.or_assoc]

/-- The facts that a step brings. -/
def factsAt (f : Flow) (s : Step) : List Fact :=
  match f.offer? s with
  | some (.ok item) => item.facts
  | some (.error _) | none => []

/-- Driving a flow loses no fact: those of the steps handled are rendered or gathered still. -/
theorem facts_drive (f : Flow) (s : Step) (d : Display) :
    let driven := drive f.handle s d
    driven.rendered.flatMap Rendering.facts ++ driven.display.pager.opened =
      d.pager.opened ++ driven.handled.flatMap f.factsAt := by
  have quiet : ∀ {s : Step}, f.offer? s = none → f.factsAt s = [] := by
    intro s offered
    rw [factsAt, offered]
  have kept : ∀ {s : Step} {offer : Except Fault Item} {d : Display},
      f.offer? s = some offer →
        (d.offer offer).rendered.flatMap Rendering.facts ++ (d.offer offer).display.pager.opened =
          d.pager.opened ++ f.factsAt s := by
    intro s offer d offered
    rw [factsAt, offered]
    cases offer with
    | error fault => exact (List.append_nil _).symm
    | ok item => exact Display.facts_put item
  have drives := f.drives s d
  generalize drive f.handle s d = driven at drives
  dsimp only
  induction drives with
  | approves last offered left => simp [quiet offered]
  | passes following offered left rest ih => simp [ih, quiet offered]
  | refuses following offered left refused => simp [kept offered]
  | renders following offered left shown => simp [kept offered]
  | gathers following offered left shown rest ih =>
    rw [List.flatMap_append, List.append_assoc, ih, ← List.append_assoc, kept offered,
      List.flatMap_cons, List.append_assoc]

end Flow

end WalletConsent
