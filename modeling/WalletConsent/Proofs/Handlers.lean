import WalletConsent.Display.Action
import WalletConsent.Proofs.Driving
import WalletConsent.Proofs.Pagination
import WalletConsent.Proofs.Writings

/-!
How every flow handles every step on any display. It approves at the response alone, and otherwise
goes on at a later step: at once if nothing has been rendered, and after the one screen that has.
Two things can be refused, a piece that the address lacks and a question while another screen is
still deferred; both leave nothing rendered. So driving a flow never fails for want of an advance.

Displays come here from any actions, failed ones included: what handling relies on is the pager's
budget, and every action leaves that in order (`Display.sound_pager_after`).
-/

set_option autoImplicit false

namespace WalletConsent

/-- Questions need the display for themselves; facts gather whatever is deferred. -/
def Item.asks : Item → Bool
  | warning _ | prompt .. | confirm .. => true
  | fact _ | pageFact _ => false

namespace Display

/-- What may happen to a display: an action, another style, the deferred screen brought out. -/
inductive Event
  | action (action : Action)
  | style (style : ConfirmStyle)
  | release

def next (d : Display) : Event → Display
  | .action action => (d.perform action).display
  | .style style => { d with style }
  | .release => (d.release?.map Prod.fst).getD d

/-- A new display after events; an action that fails leaves what it has done. -/
def after (events : List Event) : Display := events.foldl next {}

variable {d : Display}

/-- Putting an item works on the pager once at most. -/
inductive Pages (d d' : Display) : Prop
  | keeps (same : d'.pager = d.pager)
  | works (op : Pager.Op) (turned : d'.pager = (d.pager.apply op).1)

theorem Pages.sound {d' : Display} (pages : d.Pages d') (sound : d.pager.Sound) :
    d'.pager.Sound := by
  cases pages with
  | keeps same =>
    rw [same]
    exact sound
  | works op turned =>
    rw [turned]
    exact Pager.sound_apply d.pager op

theorem pages_turn {turn : Pager.Turn} (op : Pager.Op) (turned : turn = d.pager.apply op) :
    d.Pages (d.turn turn).display := by
  apply Pages.works op
  rw [← turned]
  obtain ⟨pager, page⟩ := turn
  cases page <;> rfl

/-- Bringing out a page of facts is the same before and after a confirmation is in force. -/
theorem pages_place (d : Display) (statuses : Option Statuses) (screen : Screen) :
    d.Pages ({ d with statuses }.place screen).display := by
  unfold place
  split
  · exact .keeps rfl
  · split
    · rename_i flushed
      exact .works .flush (congrArg Prod.fst flushed).symm
    · rename_i flushed
      exact .works .flush (congrArg Prod.fst flushed).symm

theorem pages_put (d : Display) (item : Item) : d.Pages (d.put item).display := by
  cases item with
  | fact f => exact pages_turn (.push f) rfl
  | pageFact f => exact pages_turn (.pushNewPage f) rfl
  | warning message => exact pages_place d d.statuses _
  | prompt title subtitle => exact pages_place d d.statuses _
  | confirm title subtitle statuses => exact pages_place d (some statuses) _

theorem pages_offer (d : Display) (offer : Except Fault Item) :
    d.Pages (d.offer offer).display := by
  cases offer with
  | error fault => exact .keeps rfl
  | ok item => exact d.pages_put item

theorem pages_next (d : Display) (event : Event) : d.Pages (d.next event) := by
  cases event with
  | style style => exact .keeps rfl
  | release =>
    apply Pages.keeps
    unfold next release?
    cases d.deferred <;> rfl
  | action action =>
    cases action with
    | force => exact pages_turn .flush rfl
    | reset => exact .works .reset rfl
    | _ => exact d.pages_offer _

/-- No event takes a pager over its budget. -/
theorem sound_pager_after (events : List Event) : (after events).pager.Sound := by
  have run : ∀ d : Display, d.pager.Sound → (events.foldl next d).pager.Sound := by
    induction events with
    | nil => exact fun d sound => sound
    | cons event events ih =>
      intro d sound
      exact ih (d.next event) ((d.pages_next event).sound sound)
  exact run {} .fresh

/-- All that putting an item can come to. -/
inductive Puts (d : Display) (item : Item) : Outcome Shown → Prop
  | refuses {d' : Display} (asks : item.asks = true) (busy : d.deferred.isSome) :
      Puts d item { result := .error .unexpectedState, display := d' }
  | gathers {d' : Display} (free : item.asks = true → d.deferred = none) :
      Puts d item { result := .ok .nothing, display := d' }
  | renders {d' : Display} {screen : Screen} (free : item.asks = true → d.deferred = none) :
      Puts d item { result := .ok .rendered, display := d', rendered := [.screen screen] }

theorem puts_turn {item : Item} (quiet : item.asks = false) (turn : Pager.Turn) :
    d.Puts item (d.turn turn) := by
  have free : item.asks = true → d.deferred = none := by
    intro asks
    cases quiet.symm.trans asks
  obtain ⟨pager, page⟩ := turn
  cases page with
  | none => exact .gathers free
  | some page => exact .renders free

theorem puts_place {item : Item} (asks : item.asks = true) (statuses : Option Statuses)
    (screen : Screen) : d.Puts item ({ d with statuses }.place screen) := by
  unfold place
  by_cases busy : d.deferred.isSome
  · rw [if_pos busy]
    exact .refuses asks busy
  · have free : item.asks = true → d.deferred = none := fun _ => by simpa using busy
    rw [if_neg busy]
    split
    · exact .renders free
    · exact .renders free

theorem puts_put (d : Display) (item : Item) : d.Puts item (d.put item) := by
  cases item with
  | fact f => exact puts_turn rfl _
  | pageFact f => exact puts_turn rfl _
  | warning message => exact puts_place rfl d.statuses _
  | prompt title subtitle => exact puts_place rfl d.statuses _
  | confirm title subtitle statuses => exact puts_place rfl (some statuses) _

end Display

theorem Address.lt_pieceCount_iff {raw : List UInt8} {n : Nat} :
    n < pieceCount raw ↔ pieceLength * n < raw.length := by
  simp only [pieceCount, pieceLength]
  omega

namespace Flow

/-- Where the stages of a flow stand: an address at its own stage, and at no other. -/
def Body.Stands (c : Content) (stage : Stage) : Body → Prop
  | .item _ => stage ≠ .address ∧ stage ≠ .respond
  | .pass => (stage = .address → c.address? = none) ∧ stage ≠ .respond
  | .address label raw => stage = .address ∧ label = c.addressLabel ∧ c.address? = some raw

theorem Content.stands (c : Content) (policy : Policy) :
    ∀ scene ∈ c.scenes policy, scene.body.Stands c scene.stage := by
  cases c with
  | deriveAddress mode spending staking raw =>
    cases staking <;> simp [scenes, Body.Stands, addressLabel, address?]
  | changeOutput amount path staking raw carriesDatum =>
    cases raw <;> cases carriesDatum <;> simp [scenes, Body.Stands, addressLabel, address?]
  | _ => simp [scenes, Body.Stands, addressLabel, address?]

/-- No scene stands for the response. -/
theorem Body.Stands.ne_respond {c : Content} {stage : Stage} {body : Body}
    (stands : body.Stands c stage) : stage ≠ .respond := by
  cases body with
  | item offer => exact stands.2
  | pass => exact stands.2
  | address label raw =>
    rw [stands.1]
    exact Stage.noConfusion

variable {f : Flow} {s : Step} {scene : Scene}

theorem stageAt_eq (f : Flow) (s : Step) :
    f.kind.stageAt s = ((f.scenes[s.scene.toNat]?).map Scene.stage).getD .respond := by
  rw [Kind.stageAt, kind, ← Content.map_stage_scenes f.policy, List.getElem?_map]
  rfl

theorem stands_of_getElem? (here : f.scenes[s.scene.toNat]? = some scene) :
    scene.body.Stands f.content (f.kind.stageAt s) := by
  rw [stageAt_eq, here]
  exact f.content.stands f.policy scene (List.mem_of_getElem? here)

/-- A flow responds where no scene is left. -/
theorem stageAt_eq_respond_iff : f.kind.stageAt s = .respond ↔ f.next? s = none := by
  cases here : f.scenes[s.scene.toNat]? with
  | none => simp [stageAt_eq, next?, here]
  | some scene =>
    have stays := (stands_of_getElem? here).ne_respond
    simp [stays, next?, here]

/-- The step asks for a piece behind the end of the address. -/
def LacksPiece (f : Flow) (s : Step) : Prop :=
  f.kind.stageAt s = .address ∧
    ∃ raw, f.content.address? = some raw ∧ raw.length ≤ Address.pieceLength * s.piece.toNat

/-- The step offers a warning, a prompt or a confirmation. -/
def Asks (f : Flow) (s : Step) : Prop :=
  ∃ item, f.offer? s = some (.ok item) ∧ item.asks = true

/-- An address is offered piece by piece at its stage. -/
theorem offer?_of_address {raw : List UInt8} (stage : f.kind.stageAt s = .address)
    (shows : f.content.address? = some raw) :
    f.offer? s = some (Item.piece? f.content.addressLabel raw s.piece.toNat) := by
  cases here : f.scenes[s.scene.toNat]? with
  | none =>
    rw [stageAt_eq, here] at stage
    cases stage
  | some scene =>
    have stands := stands_of_getElem? here
    rw [offer?, here, Option.map_some]
    cases body : scene.body with
    | item offer =>
      rw [body] at stands
      exact absurd stage stands.1
    | pass =>
      rw [body] at stands
      cases (stands.1 stage).symm.trans shows
    | address label raw' =>
      rw [body] at stands
      obtain ⟨-, rfl, shows'⟩ := stands
      cases shows'.symm.trans shows
      rfl

theorem pieceCount_le_of_address? {raw : List UInt8} (shows : f.content.address? = some raw) :
    Address.pieceCount raw ≤ 2 :=
  Address.pieceCount_le (f.content.length_le_of_address? f.fits shows)

theorem lt_pieceCount_of_not_lacksPiece {raw : List UInt8} (stage : f.kind.stageAt s = .address)
    (shows : f.content.address? = some raw) (there : ¬ f.LacksPiece s) :
    s.piece.toNat < Address.pieceCount raw := by
  apply Address.lt_pieceCount_iff.mpr
  apply Nat.lt_of_not_le
  exact fun short => there ⟨stage, raw, shows, short⟩

/-- What a step offers is an item of its scene, or a piece of the address. -/
inductive Offers (f : Flow) (s : Step) (offer : Except Fault Item) : Prop
  | item {scene : Scene} (among : scene ∈ f.scenes) (shows : scene.body = .item offer)
      (stage : f.kind.stageAt s = scene.stage) (other : scene.stage ≠ .address)
  | piece {raw : List UInt8} (stage : f.kind.stageAt s = .address)
      (shows : f.content.address? = some raw)
      (offered : offer = Item.piece? f.content.addressLabel raw s.piece.toNat)

theorem offers_of_offer? {offer : Except Fault Item} (offered : f.offer? s = some offer) :
    f.Offers s offer := by
  unfold offer? at offered
  cases here : f.scenes[s.scene.toNat]? with
  | none =>
    rw [here] at offered
    cases offered
  | some scene =>
    have stage : f.kind.stageAt s = scene.stage := by
      rw [stageAt_eq, here]
      rfl
    have stands := stands_of_getElem? here
    rw [here, Option.map_some] at offered
    cases shows : scene.body with
    | item offer' =>
      rw [shows] at stands offered
      cases offered
      rw [stage] at stands
      exact .item (List.mem_of_getElem? here) shows stage stands.1
    | pass =>
      rw [shows] at offered
      cases offered
    | address label raw =>
      rw [shows] at stands offered
      cases offered
      obtain ⟨address, rfl, held⟩ := stands
      exact .piece address held rfl

/-- What a step offers is whole, unless the address lacks the piece. -/
theorem exists_item {offer : Except Fault Item} (offered : f.offer? s = some offer)
    (there : ¬ f.LacksPiece s) : ∃ item, offer = .ok item := by
  have good : offer.isOk = true := by
    cases offers_of_offer? offered with
    | @item scene among shows stage other =>
      have sound := f.content.sound f.fits f.policy scene among
      rw [shows] at sound
      cases offer with
      | ok item => rfl
      | error fault => cases (sound fault (List.mem_singleton.mpr rfl)).2
    | @piece raw stage shows placed =>
      rw [placed]
      exact Item.isOk_piece? f.content.utf8ByteSize_addressLabel_le
        (pieceCount_le_of_address? shows) (lt_pieceCount_of_not_lacksPiece stage shows there)
  cases offer with
  | ok item => exact ⟨item, rfl⟩
  | error fault => cases good

theorem offer?_of_lacksPiece (lacks : f.LacksPiece s) :
    f.offer? s = some (.error .invalidLength) := by
  obtain ⟨stage, raw, shows, short⟩ := lacks
  have outside : ¬ s.piece.toNat < Address.pieceCount raw := by
    rw [Address.lt_pieceCount_iff]
    exact Nat.not_lt_of_le short
  rw [offer?_of_address stage shows, Item.piece?, Address.piece?, if_neg outside]

/-- The texts that are written at a step. -/
def writings (f : Flow) (s : Step) : List Writing :=
  match f.kind.stageAt s, f.content.address? with
  | .address, some raw => f.content.pieceWritings raw s.piece.toNat
  | stage, _ => f.content.writings stage

theorem written_of_offer? {offer : Except Fault Item} (offered : f.offer? s = some offer)
    (there : ¬ f.LacksPiece s) : Item.Written (f.writings s) offer := by
  unfold writings
  cases offers_of_offer? offered with
  | @item scene among shows stage other =>
    have written := f.content.written f.fits f.policy scene among
    rw [shows] at written
    rw [stage]
    split
    · rename_i raw address held
      exact absurd address other
    · exact written
  | @piece raw stage shows placed =>
    rw [stage, shows, placed]
    exact Content.written_piece (pieceCount_le_of_address? shows)
      (lt_pieceCount_of_not_lacksPiece stage shows there)

/-- All that handling a step can come to. -/
inductive Handles (f : Flow) (s : Step) (d : Display) : Outcome (Next Step) → Prop
  | approves (last : f.next? s = none) (there : ¬ f.LacksPiece s) (quiet : ¬ f.Asks s) :
      Handles f s d { result := .ok .approve, display := d }
  | lacks {next : Step} (following : f.next? s = some next) (lacks : f.LacksPiece s)
      (quiet : ¬ f.Asks s) :
      Handles f s d { result := .error .invalidLength, display := d }
  | blocked {next : Step} {d' : Display} (following : f.next? s = some next)
      (there : ¬ f.LacksPiece s) (asks : f.Asks s) (busy : d.deferred.isSome) :
      Handles f s d { result := .error .unexpectedState, display := d' }
  | goes {next : Step} {d' : Display} (following : f.next? s = some next)
      (there : ¬ f.LacksPiece s) (free : f.Asks s → d.deferred = none) :
      Handles f s d { result := .ok (.goto next), display := d' }
  | waits {next : Step} {d' : Display} {screen : Screen} (following : f.next? s = some next)
      (there : ¬ f.LacksPiece s) (free : f.Asks s → d.deferred = none) :
      Handles f s d
        { result := .ok (.wait next), display := d', rendered := [.screen screen] }

theorem handles (f : Flow) (s : Step) (d : Display) : f.Handles s d (f.handle s d) := by
  have silent : f.offer? s = none → ¬ f.LacksPiece s ∧ ¬ f.Asks s := by
    intro none
    constructor
    · intro lacks
      cases (offer?_of_lacksPiece lacks).symm.trans none
    · rintro ⟨item, asked, -⟩
      cases asked.symm.trans none
  rw [handle_eq]
  cases following : f.next? s with
  | none =>
    have quiet := silent (offer?_of_next?_eq_none following)
    exact .approves following quiet.1 quiet.2
  | some next =>
    cases offered : f.offer? s with
    | none =>
      have quiet := silent offered
      exact .goes following quiet.1 (fun asks => absurd asks quiet.2)
    | some offer =>
      by_cases lacks : f.LacksPiece s
      · cases (offer?_of_lacksPiece lacks).symm.trans offered
        refine .lacks following lacks ?_
        rintro ⟨item, asked, -⟩
        cases asked.symm.trans offered
      · obtain ⟨item, rfl⟩ := exists_item offered lacks
        have asks_iff : f.Asks s ↔ item.asks = true := by
          constructor
          · rintro ⟨item', asked, asks⟩
            cases asked.symm.trans offered
            exact asks
          · exact fun asks => ⟨item, offered, asks⟩
        have puts := d.puts_put item
        dsimp only [Display.offer]
        generalize d.put item = o at puts
        cases puts with
        | refuses asks busy => exact .blocked following lacks (asks_iff.mpr asks) busy
        | gathers free => exact .goes following lacks (fun asks => free (asks_iff.mp asks))
        | renders free => exact .waits following lacks (fun asks => free (asks_iff.mp asks))

/-- The step behind a step stands for another of its stages, or for the response. -/
theorem scene_le_length_of_next? {next : Step} (following : f.next? s = some next) :
    next.scene.toNat ≤ f.kind.stages.length := by
  have inside : s.scene.toNat < f.scenes.length := by
    apply Nat.lt_of_not_le
    intro behind
    cases following.symm.trans (next?_eq_none_iff.mpr behind)
  have few := f.length_scenes_le
  have stages : f.scenes.length = f.kind.stages.length := f.content.length_scenes f.policy
  rcases scene_of_next? following with same | ⟨-, rfl⟩
  · rw [same]
    omega
  · rw [Step.toNat_scene_ofScene (by omega)]
    omega

/-- A handler that goes on names the step behind its own. -/
theorem next?_eq_of_named {d : Display} {next : Step}
    (named : (f.handle s d).result = .ok (.goto next) ∨
      (f.handle s d).result = .ok (.wait next)) : f.next? s = some next := by
  have handles := f.handles s d
  generalize f.handle s d = o at handles named
  cases handles with
  | approves | lacks | blocked => simp at named
  | goes following there free | waits following there free =>
    obtain rfl : _ = next := by simpa using named
    exact following

/-- Driving a flow fails where a step of it does, and nowhere else. -/
theorem comesTo_of_drive_error {d : Display} {fault : Fault}
    (failed : (drive f.handle s d).result = .error fault) :
    ∃ e, ComesTo f.handle (drive f.handle s d).step e s d ∧
      (f.handle (drive f.handle s d).step e).result = .error fault := by
  obtain ⟨e, comes, ends⟩ := (rounds_drive f.handle s d).comesTo_of_error failed
  refine ⟨e, comes, ?_⟩
  generalize (drive f.handle s d).step = last at ends
  rcases ends with failed | ⟨-, next, named, stays⟩
  · exact failed
  · exact absurd (place_lt_of_next? (next?_eq_of_named named)) stays

end Flow

/-- How a flow handles a step on a display, and how it is driven from there. -/
structure Flow.HandlesSoundly (f : Flow) (s : Flow.Step) (d : Display) : Prop where
  approves : (f.handle s d).result = .ok .approve ↔ f.kind.stageAt s = .respond
  /-- A step goes on at a later one, which is one of its flow. -/
  advances (next : Flow.Step)
      (named : (f.handle s d).result = .ok (.goto next) ∨
        (f.handle s d).result = .ok (.wait next)) :
    Ranked.place s < Ranked.place next ∧ next.scene.toNat ≤ f.kind.stages.length
  /-- At most one screen is rendered, and where one is, the flow waits for it. -/
  renders : (f.handle s d).rendered = [] ∨ ∃ screen, (f.handle s d).rendered = [.screen screen]
  waits : (∃ next, (f.handle s d).result = .ok (.wait next)) ↔ (f.handle s d).rendered ≠ []
  goes : (∃ next, (f.handle s d).result = .ok (.goto next)) ↔
    f.kind.stageAt s ≠ .respond ∧ (f.handle s d).result.isOk ∧ (f.handle s d).rendered = []
  fails (fault : Fault) (failed : (f.handle s d).result = .error fault) :
    fault = .invalidLength ∨ fault = .unexpectedState
  lacks : (f.handle s d).result = .error .invalidLength ↔ f.LacksPiece s
  blocked : (f.handle s d).result = .error .unexpectedState ↔ f.Asks s ∧ d.deferred.isSome
  /-- The number of a piece that there is can be counted on. -/
  counts (raw : List UInt8) (stage : f.kind.stageAt s = .address)
      (shows : f.content.address? = some raw)
      (there : Address.pieceLength * s.piece.toNat < raw.length) :
    s.piece.toNat + 1 < 256
  /-- What the step offers keeps to the limits for labels, values and texts. Each text written for
  it fits its room, and none is the one that stands in for a text without room. -/
  offers (offer : Except Fault Item) (offered : f.offer? s = some offer)
      (there : ¬ f.LacksPiece s) :
    ∃ item, offer = .ok item ∧ encodingError ∉ item.texts ∧
      ∀ w ∈ f.writings s,
        Amount.fill w.room w.pieces = .text w.chars ∧ String.ofList w.chars ∈ item.texts
  /-- The pager would find nothing amiss, whatever it is asked for. -/
  pages (op : Pager.Op) :
    d.pager.counted.apply op = .ok ((d.pager.apply op).1.counted, (d.pager.apply op).2)
  /-- Driving the flow fails where a step that it has come to fails, with the fault of that step. -/
  drives (fault : Fault) (failed : (drive f.handle s d).result = .error fault) :
    ∃ e, ComesTo f.handle (drive f.handle s d).step e s d ∧
      (f.handle (drive f.handle s d).step e).result = .error fault

/-- Every flow handles every step soundly, on whatever display events lead to. -/
theorem Flow.handles_soundly (f : Flow) (s : Flow.Step) (events : List Display.Event) :
    f.HandlesSoundly s (Display.after events) := by
  have pager := Display.sound_pager_after events
  generalize Display.after events = d at pager
  have handles := f.handles s d
  constructor
  case approves =>
    rw [stageAt_eq_respond_iff]
    generalize f.handle s d = o at handles
    cases handles <;> simp_all
  case advances =>
    intro next named
    have following := next?_eq_of_named named
    exact ⟨place_lt_of_next? following, scene_le_length_of_next? following⟩
  case renders =>
    generalize f.handle s d = o at handles
    cases handles <;> simp
  case waits =>
    generalize f.handle s d = o at handles
    cases handles <;> simp
  case goes =>
    rw [Ne, stageAt_eq_respond_iff]
    generalize f.handle s d = o at handles
    cases handles <;> simp_all [Except.isOk, Except.toBool]
  case fails =>
    intro fault failed
    generalize f.handle s d = o at handles failed
    cases handles <;> simp_all
  case lacks =>
    generalize f.handle s d = o at handles
    cases handles <;> simp_all
  case blocked =>
    generalize f.handle s d = o at handles
    cases handles <;> simp_all
  case counts =>
    intro raw stage shows there
    have few := f.pieceCount_le_of_address? shows
    have inside := Address.lt_pieceCount_iff.mpr there
    omega
  case offers =>
    intro offer offered there
    obtain ⟨item, rfl⟩ := exists_item offered there
    have written := written_of_offer? offered there
    refine ⟨item, rfl, written.legible item rfl, ?_⟩
    intro w among
    exact ⟨(written.fits w among).fill_eq, written.shown w among item rfl⟩
  case pages => exact fun op => Pager.apply_counted pager op
  case drives => exact fun fault failed => comesTo_of_drive_error failed

end WalletConsent
