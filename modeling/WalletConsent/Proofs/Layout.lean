import WalletConsent.Display.Basic

/-!
The reference layout of a list of items, and the display as a machine that brings it out. Facts
gather on a page until the next one would take it over the line budget or must open a page; every
question is a screen of its own behind the page before it; what is left at the end is shown last.

`Display.steps_put` is the step: putting an item on a display renders nothing or exactly the
next screen of the layout, and what is still to come is the rest of it.
-/

set_option autoImplicit false

namespace WalletConsent

theorem Fact.two_le_lines (f : Fact) : 2 ≤ f.lines := Nat.le_add_left ..

/-- The longest value takes seven lines and its label two. -/
theorem Fact.lines_le (f : Fact) : f.lines ≤ 9 := by
  have short : f.value.utf8ByteSize ≤ 128 := f.value_le
  simp only [lines, charsPerLine, overheadLines]
  omega

namespace Page

theorem two_mul_length_le_lines (p : Page) : 2 * p.length ≤ p.lines := by
  induction p with
  | nil => exact Nat.le_refl _
  | cons f p ih =>
    have some := f.two_le_lines
    simp only [lines, List.length_cons] at ih ⊢
    omega

@[simp]
theorem lines_nil : lines [] = 0 := rfl

end Page

namespace Pager

@[simp]
theorem opened_page (page : Page) : opened { page } = page := rfl

/-- The line budget alone ends a page: five facts fill it, so a sixth never fits its lines. -/
theorem push_of_lines_le {p : Pager} {f : Fact}
    (fits : p.opened.lines + f.lines ≤ Page.maxLines) :
    p.push f = ({ page := p.opened ++ [f] }, none) := by
  have few := Page.two_mul_length_le_lines p.opened
  have some := f.two_le_lines
  refine if_neg ?_
  simp only [Page.maxLines, Page.maxFacts] at fits ⊢
  omega

theorem push_of_lt_lines {p : Pager} {f : Fact}
    (exceeds : Page.maxLines < p.opened.lines + f.lines) :
    p.push f = ({ held := some f }, some p.opened) :=
  if_pos (.inl exceeds)

/-- A fact alone keeps to the budget, so there is a page for it to end. -/
theorem opened_ne_nil_of_not_le {p : Pager} {f : Fact}
    (exceeds : ¬ p.opened.lines + f.lines ≤ Page.maxLines) : p.opened ≠ [] := by
  intro empty
  have short := f.lines_le
  simp only [empty, Page.lines_nil, Page.maxLines] at exceeds
  omega

theorem pushNewPage_of_opened_eq_nil {p : Pager} {f : Fact} (empty : p.opened = []) :
    p.pushNewPage f = ({ page := [f] }, none) := by
  simp [pushNewPage, empty]

theorem pushNewPage_of_opened_ne_nil {p : Pager} {f : Fact} (filled : p.opened ≠ []) :
    p.pushNewPage f = ({ held := some f }, some p.opened) := by
  simp [pushNewPage, filled]

theorem flush_of_opened_eq_nil {p : Pager} (empty : p.opened = []) : p.flush = ({}, none) := by
  simp [flush, empty]

theorem flush_of_opened_ne_nil {p : Pager} (filled : p.opened ≠ []) :
    p.flush = ({}, some p.opened) := by
  simp [flush, filled]

end Pager

namespace Screen

def isPage : Screen → Bool
  | page _ => true
  | warning _ | choice _ => false

def page? : Screen → Option Page
  | page facts => some facts
  | warning _ | choice _ => none

/-- What a flow asks the user about, apart from its facts. -/
inductive Question : Screen → Prop
  | warning (message : Text) : Question (.warning message)
  | prompt (title subtitle : Text) : Question (.choice ⟨.prompt, title, subtitle⟩)
  | confirm (style : ConfirmStyle) (title subtitle : Text) :
    Question (.choice ⟨.confirm style, title, subtitle⟩)

/-- No flow asks about a rejection by itself. -/
theorem Question.ne_rejection {s : Screen} (asks : s.Question) : s ≠ .choice .rejection := by
  cases asks <;> simp [Choice.rejection]

end Screen

namespace Layout

/-- The page as a screen, unless it is empty. -/
def close (page : Page) : List Screen := if page.isEmpty then [] else [.page page]

/-- The screens still to be shown, with a page begun. -/
def extend (style : ConfirmStyle) : Page → List Item → List Screen
  | page, [] => close page
  | page, .fact f :: items =>
    if page.lines + f.lines ≤ Page.maxLines then extend style (page ++ [f]) items
    else close page ++ extend style [f] items
  | page, .pageFact f :: items => close page ++ extend style [f] items
  | page, .warning message :: items => close page ++ .warning message :: extend style [] items
  | page, .prompt title subtitle :: items =>
    close page ++ .choice ⟨.prompt, title, subtitle⟩ :: extend style [] items
  | page, .confirm title subtitle _ :: items =>
    close page ++ .choice ⟨.confirm style, title, subtitle⟩ :: extend style [] items

/-- The screens of a list of items, shown in order. -/
def screens (style : ConfirmStyle) (items : List Item) : List Screen := extend style [] items

@[simp]
theorem close_nil : close [] = [] := rfl

theorem close_of_ne_nil {page : Page} (filled : page ≠ []) : close page = [.page page] := by
  simp [close, filled]

theorem length_close_le (page : Page) : (close page).length ≤ 1 := by
  unfold close
  split <;> simp

/-- Every screen but the first shows an item that no screen before it shows. -/
theorem length_extend_le (style : ConfirmStyle) (page : Page) (items : List Item) :
    (extend style page items).length ≤ (close page).length + items.length := by
  induction items generalizing page with
  | nil => exact Nat.le_refl _
  | cons item items ih =>
    have begun : ∀ page, (extend style page items).length ≤ 1 + items.length := fun page =>
      Nat.le_trans (ih page) (Nat.add_le_add_right (length_close_le page) _)
    have fresh : (extend style [] items).length ≤ items.length := by simpa using ih []
    cases item with
    | fact f =>
      rw [extend]
      split
      · have := begun (page ++ [f])
        simp only [List.length_cons]
        omega
      · have := begun [f]
        simp only [List.length_append, List.length_cons]
        omega
    | pageFact f =>
      have := begun [f]
      simp only [extend, List.length_append, List.length_cons]
      omega
    | warning | prompt | confirm =>
      simp only [extend, List.length_append, List.length_cons]
      omega

theorem extend_ne_nil_of_page_ne_nil {style : ConfirmStyle} {page : Page} (filled : page ≠ [])
    (items : List Item) : extend style page items ≠ [] := by
  induction items generalizing page with
  | nil => simp [extend, close, filled]
  | cons item items ih =>
    cases item with
    | fact f =>
      rw [extend]
      split
      · exact ih (by simp)
      · simp [close, filled]
    | pageFact | warning | prompt | confirm => simp [extend, close, filled]

theorem screens_ne_nil {style : ConfirmStyle} {items : List Item} (some : items ≠ []) :
    screens style items ≠ [] := by
  obtain ⟨item, items, rfl⟩ := List.exists_cons_of_ne_nil some
  cases item with
  | fact f =>
    rw [screens, extend]
    split
    · exact extend_ne_nil_of_page_ne_nil (by simp) items
    · exact extend_ne_nil_of_page_ne_nil (by simp) items
  | pageFact f =>
    rw [screens, extend, close_nil, List.nil_append]
    exact extend_ne_nil_of_page_ne_nil (by simp) items
  | warning | prompt | confirm => simp [screens, extend]

/-- A warning among the items is a screen of the layout, whatever is gathered before it. -/
theorem warning_mem_extend {style : ConfirmStyle} {message : Text} {items : List Item}
    (among : .warning message ∈ items) (page : Page) :
    .warning message ∈ extend style page items := by
  induction items generalizing page with
  | nil => cases among
  | cons item items ih =>
    rcases List.mem_cons.mp among with rfl | later
    · simp [extend]
    · cases item with
      | fact f =>
        rw [extend]
        split
        · exact ih later _
        · exact List.mem_append_right _ (ih later _)
      | pageFact f => exact List.mem_append_right _ (ih later _)
      | warning | prompt | confirm =>
        exact List.mem_append_right _ (List.mem_cons_of_mem _ (ih later _))

end Layout

namespace Item

/-- The statuses that a confirmation brings. -/
def statuses? : Item → Option Statuses
  | .confirm _ _ statuses => some statuses
  | _ => none

/-- The statuses in force once the items have been shown. -/
def lastStatuses (before : Option Statuses) (items : List Item) : Option Statuses :=
  items.foldl (fun statuses item => item.statuses?.or statuses) before

@[simp]
theorem lastStatuses_nil (before : Option Statuses) : lastStatuses before [] = before := rfl

@[simp]
theorem lastStatuses_cons (before : Option Statuses) (item : Item) (items : List Item) :
    lastStatuses before (item :: items) = lastStatuses (item.statuses?.or before) items := rfl

theorem isSome_statuses? {item : Item} :
    item.statuses?.isSome ↔ ∃ title subtitle statuses, item = .confirm title subtitle statuses := by
  cases item <;> simp [statuses?]

theorem isSome_lastStatuses {before : Option Statuses} {items : List Item} :
    (lastStatuses before items).isSome ↔
      before.isSome ∨ ∃ title subtitle statuses, .confirm title subtitle statuses ∈ items := by
  induction items generalizing before with
  | nil => simp
  | cons item items ih =>
    rw [lastStatuses_cons, ih, Option.isSome_or, Bool.or_eq_true, isSome_statuses?]
    simp only [List.mem_cons]
    grind

/-- The facts that an item brings. -/
def facts : Item → List Fact
  | .fact f | .pageFact f => [f]
  | .warning _ | .prompt .. | .confirm .. => []

end Item

/-- The facts that a rendering shows. -/
def Rendering.facts : Rendering → List Fact
  | .screen (.page facts) => facts
  | .screen _ | .status .. => []

theorem Screen.Question.facts_eq_nil {s : Screen} (asks : s.Question) :
    Rendering.facts (.screen s) = [] := by
  cases asks <;> rfl

namespace Layout

/-- The pages among the screens of a layout. -/
def pages (style : ConfirmStyle) (page : Page) (items : List Item) : List Page :=
  (extend style page items).filterMap Screen.page?

theorem filterMap_page?_close_append {page : Page} (filled : page ≠ []) (screens : List Screen) :
    (close page ++ screens).filterMap Screen.page? = page :: screens.filterMap Screen.page? := by
  rw [close_of_ne_nil filled]
  rfl

theorem flatten_filterMap_page?_close (page : Page) :
    ((close page).filterMap Screen.page?).flatten = page := by
  by_cases empty : page = []
  · rw [empty]
    rfl
  · rw [close_of_ne_nil empty]
    exact List.flatten_singleton

/-- The pages of a layout show all facts, in order. -/
theorem flatten_pages (style : ConfirmStyle) (page : Page) (items : List Item) :
    (pages style page items).flatten = page ++ items.flatMap Item.facts := by
  unfold pages
  induction items generalizing page with
  | nil => rw [extend, flatten_filterMap_page?_close, List.flatMap_nil, List.append_nil]
  | cons item items ih =>
    rw [List.flatMap_cons, ← List.append_assoc]
    cases item with
    | fact f =>
      rw [extend]
      split
      · exact ih (page ++ [f])
      · rw [List.filterMap_append, List.flatten_append, flatten_filterMap_page?_close, ih [f]]
        exact (List.append_assoc ..).symm
    | pageFact f =>
      rw [extend, List.filterMap_append, List.flatten_append, flatten_filterMap_page?_close, ih [f]]
      exact (List.append_assoc ..).symm
    | warning | prompt | confirm =>
      rw [extend, List.filterMap_append, List.flatten_append, flatten_filterMap_page?_close,
        List.append_assoc]
      exact congrArg _ (ih [])

theorem exists_page_iff (style : ConfirmStyle) {items : List Item} {f : Fact} :
    (∃ page, .page page ∈ screens style items ∧ f ∈ page) ↔ f ∈ items.flatMap Item.facts := by
  have shown := flatten_pages style [] items
  rw [List.nil_append] at shown
  rw [← shown, List.mem_flatten]
  constructor
  · rintro ⟨page, among, inside⟩
    exact ⟨page, List.mem_filterMap.mpr ⟨_, among, rfl⟩, inside⟩
  · rintro ⟨page, among, inside⟩
    obtain ⟨screen, among, same⟩ := List.mem_filterMap.mp among
    cases screen with
    | page facts =>
      cases same
      exact ⟨page, among, inside⟩
    | warning message => cases same
    | choice c => cases same

/-- A fact that opens a page cuts the layout in two. -/
theorem extend_append_pageFact (style : ConfirmStyle) (page : Page) (items : List Item) (f : Fact)
    (later : List Item) :
    extend style page (items ++ .pageFact f :: later) =
      extend style page items ++ extend style [f] later := by
  induction items generalizing page with
  | nil => rfl
  | cons item items ih =>
    cases item with
    | fact g =>
      rw [List.cons_append, extend, extend]
      split
      · exact ih (page ++ [g])
      · rw [ih [g], List.append_assoc]
    | pageFact g => rw [List.cons_append, extend, extend, ih [g], List.append_assoc]
    | warning | prompt | confirm =>
      rw [List.cons_append, extend, extend, ih [], List.append_assoc, List.cons_append]

/-- The first page of a layout continues the page begun. -/
theorem exists_pages_eq_cons (style : ConfirmStyle) {page : Page} (filled : page ≠ [])
    (items : List Item) : ∃ rest later, pages style page items = (page ++ rest) :: later := by
  induction items generalizing page with
  | nil =>
    refine ⟨[], [], ?_⟩
    rw [pages, extend, close_of_ne_nil filled, List.append_nil]
    rfl
  | cons item items ih =>
    cases item with
    | fact f =>
      by_cases fits : page.lines + f.lines ≤ Page.maxLines
      · have further : page ++ [f] ≠ [] := List.append_ne_nil_of_right_ne_nil page (by simp)
        obtain ⟨rest, later, continued⟩ := ih further
        refine ⟨f :: rest, later, ?_⟩
        rw [pages, extend, if_pos fits]
        exact continued.trans (by rw [List.append_assoc, List.singleton_append])
      · rw [pages, extend, if_neg fits, filterMap_page?_close_append filled]
        exact ⟨[], _, by rw [List.append_nil]⟩
    | pageFact | warning | prompt | confirm =>
      rw [pages, extend, filterMap_page?_close_append filled]
      exact ⟨[], _, by rw [List.append_nil]⟩

end Layout

namespace Display

/-- The screens to come: the deferred one, and the layout of the facts gathered and the items. -/
def upcoming (d : Display) (items : List Item) : List Screen :=
  d.deferred.toList ++ Layout.extend d.style d.pager.opened items

/-- From one display and its items to the next without rendering anything. -/
structure Gathers (d : Display) (items : List Item) (d' : Display) (later : List Item) : Prop where
  free : d'.deferred = none
  style : d'.style = d.style
  current : d'.current = d.current
  statuses : Item.lastStatuses d'.statuses later = Item.lastStatuses d.statuses items
  upcoming : d.upcoming items = d'.upcoming later

/-- The display holds up a screen. Facts may have gathered behind a page, but not behind a question,
and not between a page and the question deferred behind it. -/
structure Poses (d : Display) (screen : Screen) : Prop where
  current : d.current = some screen
  behind : d.deferred.isSome → d.pager.opened = []
  paged : d.deferred.isSome → screen.isPage = true
  queued : ∀ next, d.deferred = some next → next.Question
  asked : screen.isPage = false → screen.Question ∧ d.pager.opened = []

theorem Poses.ne_rejection {d : Display} {screen : Screen} (poses : d.Poses screen) :
    screen ≠ .choice .rejection := by
  cases screen with
  | page facts => rintro ⟨⟩
  | warning message => rintro ⟨⟩
  | choice c => exact (poses.asked rfl).1.ne_rejection

/-- From one display and its items to the next by rendering the first of the screens to come. -/
structure Brings (d : Display) (items : List Item) (screen : Screen) (d' : Display)
    (later : List Item) : Prop extends d'.Poses screen where
  style : d'.style = d.style
  statuses : Item.lastStatuses d'.statuses later = Item.lastStatuses d.statuses items
  upcoming : d.upcoming items = screen :: d'.upcoming later

theorem Gathers.brings {d d' d'' : Display} {items middle later : List Item} {screen : Screen}
    (first : d.Gathers items d' middle) (second : d'.Brings middle screen d'' later) :
    d.Brings items screen d'' later where
  toPoses := second.toPoses
  style := second.style.trans first.style
  statuses := second.statuses.trans first.statuses
  upcoming := first.upcoming.trans second.upcoming

theorem Gathers.trans {d d' d'' : Display} {items middle later : List Item}
    (first : d.Gathers items d' middle) (second : d'.Gathers middle d'' later) :
    d.Gathers items d'' later where
  free := second.free
  style := second.style.trans first.style
  current := second.current.trans first.current
  statuses := second.statuses.trans first.statuses
  upcoming := first.upcoming.trans second.upcoming

/-- An operation that renders nothing or exactly the next screen. -/
inductive Steps (d : Display) (items later : List Item) : Outcome Shown → Prop
  | gathers {d' : Display} (gathers : d.Gathers items d' later) :
      Steps d items later { result := .ok .nothing, display := d' }
  | brings {d' : Display} {screen : Screen} (brings : d.Brings items screen d' later) :
      Steps d items later
        { result := .ok .rendered, display := d', rendered := [.screen screen] }

variable {d : Display}

theorem upcoming_of_free (free : d.deferred = none) (items : List Item) :
    d.upcoming items = Layout.extend d.style d.pager.opened items := by
  rw [upcoming, free]
  rfl

/-- A fact put on the page begun. -/
theorem gathers_turn {pager : Pager} {item : Item} {items : List Item} (free : d.deferred = none)
    (quiet : item.statuses? = none)
    (laidOut : Layout.extend d.style d.pager.opened (item :: items) =
      Layout.extend d.style pager.opened items) :
    d.Gathers (item :: items) { d with pager } items where
  free := free
  style := rfl
  current := rfl
  statuses := by rw [Item.lastStatuses_cons, quiet, Option.none_or]
  upcoming := by
    rw [upcoming_of_free free, laidOut, upcoming, free]
    rfl

/-- A fact held over the page that it brings out. -/
theorem brings_turn {pager : Pager} {item : Item} {items : List Item} (free : d.deferred = none)
    (quiet : item.statuses? = none)
    (laidOut : Layout.extend d.style d.pager.opened (item :: items) =
      .page d.pager.opened :: Layout.extend d.style pager.opened items) :
    d.Brings (item :: items) (.page d.pager.opened)
      { d with pager, current := some (.page d.pager.opened) } items where
  current := rfl
  behind := by simp [free]
  paged := fun _ => rfl
  queued := by simp [free]
  asked := Bool.noConfusion
  style := rfl
  statuses := by rw [Item.lastStatuses_cons, quiet, Option.none_or]
  upcoming := by
    rw [upcoming_of_free free, laidOut, upcoming, free]
    rfl

theorem steps_push (free : d.deferred = none) (f : Fact) (items : List Item) :
    d.Steps (.fact f :: items) items (d.turn (d.pager.push f)) := by
  by_cases fits : d.pager.opened.lines + f.lines ≤ Page.maxLines
  · rw [Pager.push_of_lines_le fits]
    refine .gathers (gathers_turn free rfl ?_)
    rw [Layout.extend, if_pos fits, Pager.opened_page]
  · have filled := Pager.opened_ne_nil_of_not_le fits
    rw [Pager.push_of_lt_lines (Nat.lt_of_not_le fits)]
    refine .brings (brings_turn free rfl ?_)
    rw [Layout.extend, if_neg fits, Layout.close_of_ne_nil filled]
    rfl

theorem steps_pushNewPage (free : d.deferred = none) (f : Fact) (items : List Item) :
    d.Steps (.pageFact f :: items) items (d.turn (d.pager.pushNewPage f)) := by
  by_cases empty : d.pager.opened = []
  · rw [Pager.pushNewPage_of_opened_eq_nil empty]
    refine .gathers (gathers_turn free rfl ?_)
    rw [Layout.extend, empty]
    rfl
  · rw [Pager.pushNewPage_of_opened_ne_nil empty]
    refine .brings (brings_turn free rfl ?_)
    rw [Layout.extend, Layout.close_of_ne_nil empty]
    rfl

/-- A question finds its place at once, or behind the page that it brings out. -/
theorem steps_place {screen : Screen} {item : Item} {items : List Item} {statuses : Option Statuses}
    (free : d.deferred = none) (asks : screen.Question)
    (inForce : item.statuses?.or d.statuses = statuses)
    (laidOut : Layout.extend d.style d.pager.opened (item :: items) =
      Layout.close d.pager.opened ++ screen :: Layout.extend d.style [] items) :
    d.Steps (item :: items) items ({ d with statuses }.place screen) := by
  subst statuses
  have waiting : ¬ d.deferred.isSome := by simp [free]
  rw [place, if_neg waiting]
  by_cases empty : d.pager.opened = []
  · rw [Pager.flush_of_opened_eq_nil empty]
    refine .brings
      { current := rfl, behind := by simp [free], paged := by simp [free], queued := by simp [free]
        asked := fun _ => ⟨asks, rfl⟩, style := rfl, statuses := rfl, upcoming := ?_ }
    rw [upcoming_of_free free, laidOut, empty, upcoming, free]
    rfl
  · rw [Pager.flush_of_opened_ne_nil empty]
    refine .brings
      { current := rfl, behind := fun _ => rfl, paged := fun _ => rfl, queued := by simpa using asks
        asked := Bool.noConfusion, style := rfl, statuses := rfl, upcoming := ?_ }
    rw [upcoming_of_free free, laidOut, Layout.close_of_ne_nil empty]
    rfl

/-- Putting an item renders nothing or exactly the next screen of the layout. -/
theorem steps_put (free : d.deferred = none) (item : Item) (items : List Item) :
    d.Steps (item :: items) items (d.put item) := by
  cases item with
  | fact f => exact steps_push free f items
  | pageFact f => exact steps_pushNewPage free f items
  | warning message => exact steps_place free (.warning message) rfl rfl
  | prompt title subtitle => exact steps_place free (.prompt title subtitle) rfl rfl
  | confirm title subtitle statuses =>
    exact steps_place free (.confirm d.style title subtitle) rfl rfl

/-- Taking a pager over renders the page that it gave out, and keeps the rest gathered. -/
theorem facts_turn (t : Pager.Turn) :
    (d.turn t).rendered.flatMap Rendering.facts ++ (d.turn t).display.pager.opened =
      t.2.getD [] ++ t.1.opened := by
  rcases t with ⟨pager, _ | page⟩
  · rfl
  · simp [turn, Rendering.facts]

theorem facts_place {screen : Screen} (asks : screen.Question) :
    (d.place screen).rendered.flatMap Rendering.facts ++ (d.place screen).display.pager.opened =
      d.pager.opened := by
  have silent := asks.facts_eq_nil
  unfold place
  split
  · rfl
  · by_cases empty : d.pager.opened = []
    · rw [Pager.flush_of_opened_eq_nil empty, empty]
      simp [silent, Pager.opened]
    · rw [Pager.flush_of_opened_ne_nil empty]
      simp [Rendering.facts, Pager.opened]

/-- No fact is lost: what an item adds to the facts gathered is rendered or gathered still. -/
theorem facts_put (item : Item) :
    (d.put item).rendered.flatMap Rendering.facts ++ (d.put item).display.pager.opened =
      d.pager.opened ++ item.facts := by
  cases item with
  | fact f => exact (facts_turn _).trans (Pager.getD_push_append d.pager f)
  | pageFact f => exact (facts_turn _).trans (Pager.getD_pushNewPage_append d.pager f)
  | warning message => exact (facts_place (.warning message)).trans (List.append_nil _).symm
  | prompt title subtitle =>
    exact (facts_place (.prompt title subtitle)).trans (List.append_nil _).symm
  | confirm title subtitle statuses =>
    exact (facts_place (d := { d with statuses := some statuses })
      (.confirm d.style title subtitle)).trans (List.append_nil _).symm

theorem force_of_opened_eq_nil (empty : d.pager.opened = []) :
    d.force = { result := .ok .nothing, display := { d with pager := {} } } := by
  rw [force, Pager.flush_of_opened_eq_nil empty]
  rfl

theorem force_of_opened_ne_nil (filled : d.pager.opened ≠ []) :
    d.force =
      { result := .ok .rendered
        display := { d with pager := {}, current := some (.page d.pager.opened) }
        rendered := [.screen (.page d.pager.opened)] } := by
  rw [force, Pager.flush_of_opened_ne_nil filled]
  rfl

end Display

end WalletConsent
