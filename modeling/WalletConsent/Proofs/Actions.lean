import WalletConsent.Proofs.Handlers

/-!
What performing an action on a display comes to, and what an action that fails leaves behind. An
action fails for a text that is too long, and a question fails while another screen is deferred. In
both cases nothing has been rendered, and neither the facts gathered nor a screen is touched.

There is one thing that a failed action can change: a confirmation sets its statuses before it finds
that there is no place for it, so the display counts as confirmed although no confirmation has been
shown (`Display.failed_confirm_confirms`). No other action that fails changes anything.
-/

set_option autoImplicit false

namespace WalletConsent

/-- Label and value. -/
def Fact.said (f : Fact) : String × String := (f.label, f.value)

theorem Fact.of_said (f : Fact) : of f.label f.value = .ok f := dif_pos ⟨f.label_le, f.value_le⟩

theorem Fact.of_unfit {label value : String}
    (long : ¬ (label.utf8ByteSize ≤ maxLabelSize ∧ value.utf8ByteSize ≤ maxValueSize)) :
    of label value = .error .invalidLength :=
  dif_neg long

theorem Text.of_value (t : Text) : of t.value = .ok t := dif_pos t.size_le

theorem Text.of_unfit {value : String} (long : ¬ value.utf8ByteSize ≤ maxSize) :
    of value = .error .invalidLength :=
  dif_neg long

namespace Item

variable {make : Text → Text → Item}

theorem of_two_values (title subtitle : Text) :
    (do return make (← Text.of title.value) (← Text.of subtitle.value)) =
      Except.ok (ε := Fault) (make title subtitle) := by
  rw [title.of_value, subtitle.of_value]
  rfl

theorem of_two_unfit {title subtitle : String}
    (long : ¬ (title.utf8ByteSize ≤ Text.maxSize ∧ subtitle.utf8ByteSize ≤ Text.maxSize)) :
    (do return make (← Text.of title) (← Text.of subtitle)) = Except.error .invalidLength := by
  by_cases first : title.utf8ByteSize ≤ Text.maxSize
  · have second := Text.of_unfit fun short => long ⟨first, short⟩
    rw [second, Text.of, dif_pos first]
    rfl
  · rw [Text.of_unfit first]
    rfl

end Item

namespace Display

namespace Action

/-- Label and value of a fact that the action tells. -/
def told? : Action → Option (String × String)
  | fact label value | pageFact label value => some (label, value)
  | warning _ | prompt .. | confirm .. | force | reset => none

/-- The statuses that a confirmation brings. -/
def statuses? : Action → Option Statuses
  | confirm _ _ statuses => some statuses
  | fact .. | pageFact .. | warning _ | prompt .. | force | reset => none

/-- Warnings, prompts and confirmations need the display for themselves. -/
def asks : Action → Bool
  | warning _ | prompt .. | confirm .. => true
  | fact .. | pageFact .. | force | reset => false

/-- The texts of the action keep to their limits. -/
def Fits : Action → Prop
  | fact label value | pageFact label value =>
    label.utf8ByteSize ≤ Fact.maxLabelSize ∧ value.utf8ByteSize ≤ Fact.maxValueSize
  | warning message => message.utf8ByteSize ≤ Text.maxSize
  | prompt title subtitle | confirm title subtitle _ =>
    title.utf8ByteSize ≤ Text.maxSize ∧ subtitle.utf8ByteSize ≤ Text.maxSize
  | force | reset => True

/-- The screen that an action asks for with texts that keep to their limits. -/
inductive Poses (style : ConfirmStyle) : Action → Screen → Prop
  | warning (message : Text) : Poses style (.warning message.value) (.warning message)
  | prompt (title subtitle : Text) :
      Poses style (.prompt title.value subtitle.value) (.choice ⟨.prompt, title, subtitle⟩)
  | confirm (title subtitle : Text) (statuses : Statuses) :
      Poses style (.confirm title.value subtitle.value statuses)
        (.choice ⟨.confirm style, title, subtitle⟩)

variable {style : ConfirmStyle} {action : Action} {screen : Screen}

theorem Poses.asks (poses : action.Poses style screen) : action.asks = true := by
  cases poses <;> rfl

theorem Poses.told?_eq_none (poses : action.Poses style screen) : action.told? = none := by
  cases poses <;> rfl

theorem Poses.question (poses : action.Poses style screen) : screen.Question := by
  cases poses <;> constructor

theorem Poses.fits (poses : action.Poses style screen) : action.Fits := by
  cases poses with
  | warning message => exact message.size_le
  | prompt title subtitle => exact ⟨title.size_le, subtitle.size_le⟩
  | confirm title subtitle statuses => exact ⟨title.size_le, subtitle.size_le⟩

end Action

variable {d : Display} {action : Action}

/-- All that performing an action can come to. -/
inductive Performs (d : Display) : Action → Outcome Shown → Prop
  | refuses {action : Action} (unfit : ¬ action.Fits) :
      Performs d action { result := .error .invalidLength, display := d }
  | blocks {action : Action} {screen : Screen} (poses : action.Poses d.style screen)
      (busy : d.deferred.isSome) :
      Performs d action
        { result := .error .unexpectedState
          display := { d with statuses := action.statuses?.or d.statuses } }
  /-- The facts of the action join those gathered. -/
  | gathers {action : Action} {own : List Fact} {pager : Pager} (fits : action.Fits)
      (quiet : action.asks = false) (tells : own.map Fact.said = action.told?.toList)
      (kept : pager.opened = d.pager.opened ++ own) :
      Performs d action { result := .ok .nothing, display := { d with pager } }
  /-- The facts gathered come out, and those of the action are gathered instead. -/
  | turns {action : Action} {own : List Fact} {pager : Pager} (fits : action.Fits)
      (quiet : action.asks = false) (tells : own.map Fact.said = action.told?.toList)
      (kept : pager.opened = own) :
      Performs d action
        { result := .ok .rendered
          display := { d with pager, current := some (.page d.pager.opened) }
          rendered := [.screen (.page d.pager.opened)] }
  | shows {action : Action} {screen : Screen} (poses : action.Poses d.style screen)
      (free : d.deferred = none) (empty : d.pager.opened = []) :
      Performs d action
        { result := .ok .rendered
          display :=
            { d with
              pager := {}, statuses := action.statuses?.or d.statuses, current := some screen }
          rendered := [.screen screen] }
  /-- The facts gathered come out, and the screen waits behind them. -/
  | defers {action : Action} {screen : Screen} (poses : action.Poses d.style screen)
      (free : d.deferred = none) (filled : d.pager.opened ≠ []) :
      Performs d action
        { result := .ok .rendered
          display :=
            { d with
              pager := {}, statuses := action.statuses?.or d.statuses
              current := some (.page d.pager.opened), deferred := some screen }
          rendered := [.screen (.page d.pager.opened)] }
  | resets : Performs d .reset { result := .ok .nothing, display := {} }

theorem performs_turn {own : List Fact} {turn : Pager.Turn} (fits : action.Fits)
    (quiet : action.asks = false) (tells : own.map Fact.said = action.told?.toList)
    (moves : d.pager.Moves own turn) : d.Performs action (d.turn turn) := by
  cases moves with
  | gathers kept => exact .gathers fits quiet tells kept
  | turns filled kept => exact .turns fits quiet tells kept

theorem performs_place {screen : Screen} (poses : action.Poses d.style screen) :
    d.Performs action ({ d with statuses := action.statuses?.or d.statuses }.place screen) := by
  unfold place
  by_cases busy : d.deferred.isSome
  · rw [if_pos busy]
    exact .blocks poses busy
  · have free : d.deferred = none := by simpa using busy
    rw [if_neg busy]
    by_cases empty : d.pager.opened = []
    · rw [Pager.flush_of_opened_eq_nil empty]
      exact .shows poses free empty
    · rw [Pager.flush_of_opened_ne_nil empty]
      exact .defers poses free empty

theorem performs_offer {offer : Except Fault Item}
    (unfit : ¬ action.Fits → offer = .error .invalidLength)
    (fit : action.Fits → ∃ item, offer = .ok item ∧ d.Performs action (d.put item)) :
    d.Performs action (d.offer offer) := by
  by_cases fits : action.Fits
  · obtain ⟨item, made, performs⟩ := fit fits
    rw [made]
    exact performs
  · rw [unfit fits]
    exact .refuses fits

theorem performs (d : Display) (action : Action) : d.Performs action (d.perform action) := by
  cases action with
  | fact label value =>
    apply performs_offer
    · exact fun long => congrArg (Functor.map Item.fact) (Fact.of_unfit long)
    · intro fits
      let f : Fact := ⟨label, value, fits.1, fits.2⟩
      exact ⟨.fact f, congrArg (Functor.map Item.fact) f.of_said,
        performs_turn fits rfl rfl (d.pager.moves_push f)⟩
  | pageFact label value =>
    apply performs_offer
    · exact fun long => congrArg (Functor.map Item.pageFact) (Fact.of_unfit long)
    · intro fits
      let f : Fact := ⟨label, value, fits.1, fits.2⟩
      exact ⟨.pageFact f, congrArg (Functor.map Item.pageFact) f.of_said,
        performs_turn fits rfl rfl (d.pager.moves_pushNewPage f)⟩
  | warning message =>
    apply performs_offer
    · exact fun long => congrArg (Functor.map Item.warning) (Text.of_unfit long)
    · intro fits
      let t : Text := ⟨message, fits⟩
      exact ⟨.warning t, congrArg (Functor.map Item.warning) t.of_value,
        performs_place (.warning t)⟩
  | prompt title subtitle =>
    apply performs_offer
    · exact fun long => Item.of_two_unfit long
    · intro fits
      let t : Text := ⟨title, fits.1⟩
      let t' : Text := ⟨subtitle, fits.2⟩
      exact ⟨.prompt t t', Item.of_two_values t t', performs_place (.prompt t t')⟩
  | confirm title subtitle statuses =>
    apply performs_offer
    · exact fun long => Item.of_two_unfit long
    · intro fits
      let t : Text := ⟨title, fits.1⟩
      let t' : Text := ⟨subtitle, fits.2⟩
      exact ⟨.confirm t t' statuses, Item.of_two_values t t',
        performs_place (.confirm t t' statuses)⟩
  | force => exact performs_turn trivial rfl rfl d.pager.moves_flush
  | reset => exact .resets

/-- When an action fails, and what it leaves of the display. -/
structure FailsCleanly (d : Display) (action : Action) : Prop where
  refused : (d.perform action).result = .error .invalidLength ↔ ¬ action.Fits
  blocked : (d.perform action).result = .error .unexpectedState ↔
    action.Fits ∧ action.asks = true ∧ d.deferred.isSome
  fails (fault : Fault) (failed : (d.perform action).result = .error fault) :
    fault = .invalidLength ∨ fault = .unexpectedState
  /-- Nothing has been rendered, and all but the statuses is as before. -/
  keeps (fault : Fault) (failed : (d.perform action).result = .error fault) :
    (d.perform action).rendered = [] ∧ (d.perform action).display.pager = d.pager ∧
      (d.perform action).display.current = d.current ∧
      (d.perform action).display.deferred = d.deferred ∧
      (d.perform action).display.style = d.style
  /-- A confirmation that finds no place sets its statuses, and no other failure sets any. -/
  statuses (fault : Fault) (failed : (d.perform action).result = .error fault) :
    (d.perform action).display.statuses =
      if fault = .unexpectedState then action.statuses?.or d.statuses else d.statuses
  unchanged_iff (fault : Fault) (failed : (d.perform action).result = .error fault) :
    (d.perform action).display = d ↔
      ∀ title subtitle statuses, action = .confirm title subtitle statuses → action.Fits →
        d.statuses = some statuses
  /-- The pager would find nothing amiss, whatever it is asked for. -/
  pages (op : Pager.Op) :
    d.pager.counted.apply op = .ok ((d.pager.apply op).1.counted, (d.pager.apply op).2)

/-- Setting the statuses of an action changes nothing if it brings none but those in force. -/
theorem statuses_or_eq_iff (d : Display) (action : Action) :
    { d with statuses := action.statuses?.or d.statuses } = d ↔
      ∀ title subtitle statuses, action = .confirm title subtitle statuses →
        d.statuses = some statuses := by
  obtain ⟨pager, style, before, current, deferred⟩ := d
  cases action with
  | confirm title subtitle statuses =>
    simp only [Action.statuses?, Option.some_or, mk.injEq, true_and, and_true]
    constructor
    · rintro same title' subtitle' statuses' ⟨⟩
      exact same.symm
    · exact fun same => (same title subtitle statuses rfl).symm
  | _ => simp [Action.statuses?]

/-- An action that fails has a text that is too long, or asks while another screen waits. -/
theorem failed_cases {fault : Fault} (failed : (d.perform action).result = .error fault) :
    (fault = .invalidLength ∧ ¬ action.Fits ∧
      d.perform action = { result := .error fault, display := d }) ∨
    (fault = .unexpectedState ∧ (action.Fits ∧ action.asks = true ∧ d.deferred.isSome) ∧
      d.perform action =
        { result := .error fault
          display := { d with statuses := action.statuses?.or d.statuses } }) := by
  have performs := d.performs action
  generalize d.perform action = o at performs failed
  cases performs with
  | refuses unfit =>
    cases failed
    exact .inl ⟨rfl, unfit, rfl⟩
  | blocks poses busy =>
    cases failed
    exact .inr ⟨rfl, ⟨poses.fits, poses.asks, busy⟩, rfl⟩
  | gathers | turns | shows | defers | resets => cases failed

theorem perform_of_unfit (unfit : ¬ action.Fits) :
    (d.perform action).result = .error .invalidLength := by
  have performs := d.performs action
  generalize d.perform action = o at performs
  cases performs with
  | refuses => rfl
  | blocks poses | shows poses | defers poses => exact absurd poses.fits unfit
  | gathers fits | turns fits => exact absurd fits unfit
  | resets => exact absurd trivial unfit

theorem perform_of_busy (fits : action.Fits) (asks : action.asks = true)
    (busy : d.deferred.isSome) : (d.perform action).result = .error .unexpectedState := by
  have performs := d.performs action
  generalize d.perform action = o at performs
  cases performs with
  | refuses unfit => exact absurd fits unfit
  | blocks => rfl
  | gathers fits quiet | turns fits quiet => cases quiet.symm.trans asks
  | shows poses free | defers poses free =>
    rw [free] at busy
    cases busy
  | resets => cases asks

/-- Wherever events have led, an action that fails has rendered nothing and left the display as it
was, save for the statuses of a confirmation that found no place. -/
theorem fails_cleanly (events : List Event) (action : Action) :
    (after events).FailsCleanly action := by
  have sound := sound_pager_after events
  generalize after events = d at sound
  constructor
  case refused =>
    refine ⟨?_, perform_of_unfit⟩
    intro failed
    rcases failed_cases failed with ⟨-, unfit, -⟩ | ⟨other, -, -⟩
    · exact unfit
    · cases other
  case blocked =>
    refine ⟨?_, fun ⟨fits, asks, busy⟩ => perform_of_busy fits asks busy⟩
    intro failed
    rcases failed_cases failed with ⟨other, -, -⟩ | ⟨-, blocked, -⟩
    · cases other
    · exact blocked
  case fails =>
    intro fault failed
    rcases failed_cases failed with ⟨refused, -, -⟩ | ⟨blocked, -, -⟩
    · exact .inl refused
    · exact .inr blocked
  case keeps =>
    intro fault failed
    rcases failed_cases failed with ⟨-, -, same⟩ | ⟨-, -, same⟩
    · rw [same]
      exact ⟨rfl, rfl, rfl, rfl, rfl⟩
    · rw [same]
      exact ⟨rfl, rfl, rfl, rfl, rfl⟩
  case statuses =>
    intro fault failed
    rcases failed_cases failed with ⟨rfl, -, same⟩ | ⟨rfl, -, same⟩
    · rw [same]
      rfl
    · rw [same]
      rfl
  case unchanged_iff =>
    intro fault failed
    rcases failed_cases failed with ⟨-, unfit, same⟩ | ⟨-, ⟨fits, -, -⟩, same⟩
    · rw [same]
      exact ⟨fun _ _ _ _ _ fits => absurd fits unfit, fun _ => rfl⟩
    · rw [same, statuses_or_eq_iff]
      simp only [fits, true_implies]
  case pages => exact fun op => Pager.apply_counted sound op

/-- A confirmation behind a deferred warning fails, and yet the display counts as confirmed. -/
theorem failed_confirm_confirms :
    let d := after [.action (.fact "Amount" "1 ADA"), .action (.warning "Careful")]
    let o := d.perform (.confirm "Sign" "" .action)
    o.result = .error .unexpectedState ∧ o.rendered = [] ∧
      d.isConfirmed = false ∧ o.display.isConfirmed = true :=
  ⟨rfl, rfl, rfl, rfl⟩

end Display

end WalletConsent
