import WalletConsent.Proofs.Actions

/-!
Everything that a display is told comes out, in the order in which it was told, whatever is done
with it. The facts of the pages rendered and those still gathered are the facts of the actions that
succeeded (`Display.said_deeds`); a question comes out behind all facts told before it, at once or
deferred behind their page; and while one is deferred, no other is taken.
-/

set_option autoImplicit false

namespace WalletConsent

/-- A fact is held over an empty page, so what is gathered reads in either order. -/
theorem Pager.Sound.page_append_held {p : Pager} (sound : p.Sound) :
    p.page ++ p.held.toList = p.opened := by
  cases holds : p.held with
  | none => simp [opened, holds]
  | some f =>
    have empty := sound.held (by rw [holds]; rfl)
    simp [opened, holds, empty]

namespace Display

/-- An action of a run, and the display that it is performed on. -/
structure Deed where
  before : Display
  action : Action

namespace Deed

def outcome (deed : Deed) : Outcome Shown := deed.before.perform deed.action

/-- The facts of the pages rendered. -/
def shown (deed : Deed) : List Fact := deed.outcome.rendered.flatMap Rendering.facts

/-- Label and value of the fact that was told; nothing if the action failed. -/
def told (deed : Deed) : List (String × String) :=
  if deed.outcome.result.isOk then deed.action.told?.toList else []

end Deed

/-- Actions one after the other, whatever becomes of each. -/
def deeds (d : Display) : List Action → List Deed
  | [] => []
  | action :: actions => ⟨d, action⟩ :: (d.perform action).display.deeds actions

/-- The display after actions. -/
def performed (d : Display) (actions : List Action) : Display :=
  actions.foldl (fun d action => (d.perform action).display) d

@[simp]
theorem performed_cons (d : Display) (action : Action) (actions : List Action) :
    d.performed (action :: actions) = (d.perform action).display.performed actions := rfl

theorem performed_append (d : Display) (actions actions' : List Action) :
    d.performed (actions ++ actions') = (d.performed actions).performed actions' :=
  List.foldl_append

theorem performed_eq_after (actions : List Action) :
    performed {} actions = after (actions.map .action) := by
  rw [after, List.foldl_map]
  rfl

theorem sound_pager_performed (actions : List Action) : (performed {} actions).pager.Sound := by
  rw [performed_eq_after]
  exact sound_pager_after _

/-- Every action of a run is performed on the display that those before it have led to. -/
theorem exists_performed_of_mem_deeds {d : Display} {actions : List Action} {deed : Deed}
    (among : deed ∈ d.deeds actions) : ∃ front, deed.before = d.performed front := by
  induction actions generalizing d with
  | nil => cases among
  | cons action actions ih =>
    rcases List.mem_cons.mp among with rfl | later
    · exact ⟨[], rfl⟩
    · obtain ⟨front, led⟩ := ih later
      exact ⟨action :: front, led⟩

/-- A new display after actions that end at their last reset. -/
theorem performed_of_reset {actions : List Action}
    (begun : actions = [] ∨ actions.getLast? = some .reset) : performed {} actions = {} := by
  rcases begun with rfl | last
  · rfl
  · obtain ⟨front, rfl⟩ := List.getLast?_eq_some_iff.mp last
    rw [performed_append]
    rfl

variable {d : Display} {action : Action} {o : Outcome Shown}

/-- What an action shows and what is gathered then, is what was gathered before and what it has
told. -/
theorem Performs.said (performs : d.Performs action o) (keeps : action ≠ .reset) :
    (o.rendered.flatMap Rendering.facts ++ o.display.pager.opened).map Fact.said =
      d.pager.opened.map Fact.said ++ if o.result.isOk then action.told?.toList else [] := by
  cases performs with
  | refuses | blocks => exact (List.append_nil _).symm
  | gathers fits quiet tells kept =>
    rw [← tells]
    exact (congrArg (List.map Fact.said) kept).trans List.map_append
  | turns fits quiet tells kept =>
    rw [← tells]
    simp [Rendering.facts, kept, Except.isOk, Except.toBool]
  | shows poses free empty =>
    rw [empty]
    simp [poses.question.facts_eq_nil, poses.told?_eq_none, Pager.opened]
  | defers poses free filled => simp [Rendering.facts, poses.told?_eq_none, Pager.opened]
  | resets => contradiction

/-- Between resets no fact is lost, repeated or moved. -/
theorem said_deeds {d : Display} {actions : List Action} (keeps : Action.reset ∉ actions) :
    ((d.deeds actions).flatMap Deed.shown ++ (d.performed actions).pager.opened).map Fact.said =
      d.pager.opened.map Fact.said ++ (d.deeds actions).flatMap Deed.told := by
  induction actions generalizing d with
  | nil => exact (List.append_nil _).symm
  | cons action actions ih =>
    obtain ⟨first, later⟩ := not_or.mp (fun among => keeps (List.mem_cons.mpr among))
    have here : (Deed.shown ⟨d, action⟩ ++ (d.perform action).display.pager.opened).map Fact.said =
        d.pager.opened.map Fact.said ++ Deed.told ⟨d, action⟩ :=
      (d.performs action).said (Ne.symm first)
    have rest := @ih (d.perform action).display later
    rw [List.map_append] at here
    rw [performed_cons, deeds, List.flatMap_cons, List.flatMap_cons, List.append_assoc,
      List.map_append, rest, ← List.append_assoc, here, List.append_assoc]

/-- A deferred screen stays deferred until a reset. -/
theorem Performs.deferred {screen : Screen} (performs : d.Performs action o)
    (keeps : action ≠ .reset) (waiting : d.deferred = some screen) :
    o.display.deferred = some screen := by
  cases performs with
  | refuses | blocks | gathers | turns => exact waiting
  | shows poses free | defers poses free => cases free.symm.trans waiting
  | resets => contradiction

theorem deferred_performed {screen : Screen} {actions : List Action}
    (keeps : Action.reset ∉ actions) (waiting : d.deferred = some screen) :
    (d.performed actions).deferred = some screen := by
  induction actions generalizing d with
  | nil => exact waiting
  | cons action actions ih =>
    obtain ⟨first, later⟩ := not_or.mp (fun among => keeps (List.mem_cons.mpr among))
    exact ih later ((d.performs action).deferred (Ne.symm first) waiting)

/-- The answer tells whether a screen has been rendered. -/
structure Answers (o : Outcome Shown) : Prop where
  rendered_iff : o.result = .ok .rendered ↔ ∃ screen, o.rendered = [.screen screen]
  nothing_iff : o.result = .ok .nothing ↔ o.result.isOk = true ∧ o.rendered = []
  silent (fault : Fault) (failed : o.result = .error fault) : o.rendered = []

theorem Performs.answers (performs : d.Performs action o) : Answers o := by
  cases performs <;> constructor <;> simp [Except.isOk, Except.toBool]

/-- A question that is taken: it empties the pager, and is rendered or waits behind the page of all
that was gathered. -/
structure Takes (d : Display) (screen : Screen) (o : Outcome Shown) : Prop where
  emptied : o.display.pager.isEmpty = true
  atOnce (empty : d.pager.isEmpty = true) :
    o.rendered = [.screen screen] ∧ o.display.current = some screen ∧ o.display.deferred = none
  behind (filled : d.pager.isEmpty = false) :
    o.rendered = [.screen (.page (d.pager.page ++ d.pager.held.toList))] ∧
      o.display.current = some (.page (d.pager.page ++ d.pager.held.toList)) ∧
      o.display.deferred = some screen

theorem Performs.takes (performs : d.Performs action o) (sound : d.pager.Sound)
    (asks : action.asks = true) (good : o.result.isOk = true) :
    ∃ screen, action.Poses d.style screen ∧ d.Takes screen o := by
  have opened_nil_iff : d.pager.isEmpty = true ↔ d.pager.opened = [] := by
    rw [← sound.page_append_held, Pager.isEmpty]
    simp
  cases performs with
  | refuses | blocks => cases good
  | gathers fits quiet | turns fits quiet => cases quiet.symm.trans asks
  | resets => cases asks
  | @shows _ screen poses free empty =>
    refine ⟨screen, poses, rfl, fun _ => ⟨rfl, rfl, free⟩, fun filled => ?_⟩
    rw [opened_nil_iff.mpr empty] at filled
    cases filled
  | @defers _ screen poses free filled =>
    refine ⟨screen, poses, rfl, fun empty => absurd (opened_nil_iff.mp empty) filled, fun _ => ?_⟩
    rw [sound.page_append_held]
    exact ⟨rfl, rfl, rfl⟩

/-- What actions on a new display come to. -/
structure TellsInOrder (actions : List Action) : Prop where
  /-- Since the last reset, the pages rendered, the page gathered and the fact held over it make up
  the facts told. -/
  conserved (before since : List Action) (split : actions = before ++ since)
      (begun : before = [] ∨ before.getLast? = some .reset) (keeps : Action.reset ∉ since) :
    ((deeds (performed {} before) since).flatMap Deed.shown ++ (performed {} actions).pager.page ++
        (performed {} actions).pager.held.toList).map Fact.said =
      (deeds (performed {} before) since).flatMap Deed.told
  answers : ∀ deed ∈ deeds {} actions, Answers deed.outcome
  takes : ∀ deed ∈ deeds {} actions, deed.action.asks = true → deed.outcome.result.isOk = true →
    ∃ screen, deed.action.Poses deed.before.style screen ∧ deed.before.Takes screen deed.outcome
  /-- Once a screen is deferred, no question is taken before a reset. -/
  blocks (waiting : (performed {} actions).deferred.isSome) (later : List Action)
      (keeps : Action.reset ∉ later) (question : Action) (asks : question.asks = true)
      (fits : question.Fits) :
    ((performed {} (actions ++ later)).perform question).result = .error .unexpectedState ∧
      ((performed {} (actions ++ later)).perform question).rendered = []
  /-- The pager would find nothing amiss, whatever it is asked for. -/
  pages (op : Pager.Op) :
    (performed {} actions).pager.counted.apply op =
      .ok (((performed {} actions).pager.apply op).1.counted,
        ((performed {} actions).pager.apply op).2)

/-- Whatever is done with it, a display brings out every fact once and in order, and every question
behind the facts told before it. -/
theorem tells_in_order (actions : List Action) : TellsInOrder actions := by
  constructor
  case conserved =>
    intro before since split begun keeps
    have said := @said_deeds (performed {} before) since keeps
    rw [← performed_append, ← split] at said
    rw [List.append_assoc, (sound_pager_performed actions).page_append_held, said,
      performed_of_reset begun]
    rfl
  case answers =>
    intro deed among
    exact (deed.before.performs deed.action).answers
  case takes =>
    intro deed among asks good
    obtain ⟨front, led⟩ := exists_performed_of_mem_deeds among
    have sound : deed.before.pager.Sound := by
      rw [led]
      exact sound_pager_performed front
    exact (deed.before.performs deed.action).takes sound asks good
  case blocks =>
    intro waiting later keeps question asks fits
    obtain ⟨screen, waits⟩ := Option.isSome_iff_exists.mp waiting
    have still := deferred_performed keeps waits
    rw [← performed_append] at still
    have failed := perform_of_busy fits asks (by rw [still]; rfl)
    exact ⟨failed, ((performed {} (actions ++ later)).performs question).answers.silent _ failed⟩
  case pages => exact fun op => Pager.apply_counted (sound_pager_performed actions) op

end Display

end WalletConsent
