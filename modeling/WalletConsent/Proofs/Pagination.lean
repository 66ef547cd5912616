import WalletConsent.Proofs.Layout

/-!
What a pager gives out over any run of operations. Apart from a reset, an operation adds its fact to
those that there are, or gives those out and begins anew with its own (`Pager.moves_apply`). So no
fact is lost, repeated or moved, and a fact that is to open a page is the first of the page on which
it comes out.

A careful pager counts the lines of its page along, and makes sure that a fact is held over an empty
page only and that a page has room for one more fact. On no run does it find anything amiss, and its
pages are those of the pager that takes all this for granted (`Pager.run_counted`).
-/

set_option autoImplicit false

namespace WalletConsent

namespace Page

theorem lines_append (p q : Page) : (p ++ q).lines = p.lines + q.lines := by
  induction p with
  | nil => exact (Nat.zero_add _).symm
  | cons f p ih =>
    simp only [List.cons_append, lines, ih]
    omega

theorem length_le_of_lines_le {p : Page} (fits : p.lines ≤ maxLines) : p.length ≤ maxFacts := by
  have enough := two_mul_length_le_lines p
  simp only [maxLines, maxFacts] at fits ⊢
  omega

end Page

namespace Pager

/-- The facts that an operation brings. -/
def Op.facts : Op → List Fact
  | .push f | .pushNewPage f => [f]
  | .flush | .reset => []

/-- Operations one after the other: the pager that they leave, and the pages given out. -/
def run (p : Pager) : List Op → Pager × List Page
  | [] => (p, [])
  | op :: ops =>
    let turn := p.apply op
    let rest := turn.1.run ops
    (rest.1, turn.2.toList ++ rest.2)

theorem run_append (p : Pager) (ops ops' : List Op) :
    p.run (ops ++ ops') =
      (((p.run ops).1.run ops').1, (p.run ops).2 ++ ((p.run ops).1.run ops').2) := by
  induction ops generalizing p with
  | nil => rfl
  | cons op ops ih => simp only [List.cons_append, run, ih, List.append_assoc]

/-- An operation that adds its facts to those of the pager, or gives those out as a page and begins
anew with its own. -/
inductive Moves (p : Pager) (own : List Fact) : Turn → Prop
  | gathers {p' : Pager} (opened : p'.opened = p.opened ++ own) : Moves p own (p', none)
  | turns {p' : Pager} (filled : p.opened ≠ []) (opened : p'.opened = own) :
      Moves p own (p', some p.opened)

theorem moves_push (p : Pager) (f : Fact) : p.Moves [f] (p.push f) := by
  by_cases fits : p.opened.lines + f.lines ≤ Page.maxLines
  · rw [push_of_lines_le fits]
    exact .gathers rfl
  · rw [push_of_lt_lines (Nat.lt_of_not_le fits)]
    exact .turns (opened_ne_nil_of_not_le fits) rfl

theorem moves_pushNewPage (p : Pager) (f : Fact) : p.Moves [f] (p.pushNewPage f) := by
  by_cases empty : p.opened = []
  · rw [pushNewPage_of_opened_eq_nil empty]
    apply Moves.gathers
    rw [empty]
    rfl
  · rw [pushNewPage_of_opened_ne_nil empty]
    exact .turns empty rfl

theorem moves_flush (p : Pager) : p.Moves [] p.flush := by
  by_cases empty : p.opened = []
  · rw [flush_of_opened_eq_nil empty]
    apply Moves.gathers
    rw [empty]
    rfl
  · rw [flush_of_opened_ne_nil empty]
    exact .turns empty rfl

theorem moves_apply (p : Pager) (op : Op) (keeps : op ≠ .reset) :
    p.Moves op.facts (p.apply op) := by
  cases op with
  | push f => exact p.moves_push f
  | pushNewPage f => exact p.moves_pushNewPage f
  | flush => exact p.moves_flush
  | reset => contradiction

/-- Between resets no fact is lost, repeated or moved. -/
theorem flatten_run_append_opened (p : Pager) {ops : List Op} (keeps : Op.reset ∉ ops) :
    (p.run ops).2.flatten ++ (p.run ops).1.opened = p.opened ++ ops.flatMap Op.facts := by
  induction ops generalizing p with
  | nil => exact (List.append_nil _).symm
  | cons op ops ih =>
    obtain ⟨first, later⟩ := not_or.mp (fun among => keeps (List.mem_cons.mpr among))
    have rest := ih (p.apply op).1 later
    have moves := p.moves_apply op (Ne.symm first)
    simp only [run, List.flatMap_cons]
    generalize p.apply op = turn at moves rest
    cases moves with
    | gathers opened =>
      rw [opened, List.append_assoc] at rest
      exact rest
    | turns filled opened =>
      rw [opened] at rest
      simp only [Option.toList_some, List.singleton_append, List.flatten_cons, List.append_assoc]
      rw [rest]

/-- What opens the page of a pager stays the first fact of it until the page is given out. -/
theorem exists_run_append_opened {p : Pager} {f : Fact} {page : Page} {ops : List Op}
    (opened : p.opened = f :: page) (keeps : Op.reset ∉ ops) :
    ∃ rest later, (p.run ops).2 ++ [(p.run ops).1.opened] = (f :: rest) :: later := by
  induction ops generalizing p page with
  | nil => exact ⟨page, [], congrArg (fun page => [page]) opened⟩
  | cons op ops ih =>
    obtain ⟨first, later⟩ := not_or.mp (fun among => keeps (List.mem_cons.mpr among))
    have moves := p.moves_apply op (Ne.symm first)
    simp only [run]
    generalize p.apply op = turn at moves
    cases moves with
    | gathers opened' =>
      rw [opened] at opened'
      exact ih opened' later
    | turns filled opened' => exact ⟨page, _, by rw [opened]; rfl⟩

/-- A fact that is to open a page comes out behind everything before it and ahead of its page. -/
theorem exists_opens_page (p : Pager) (f : Fact) {front back : List Op}
    (keeps : Op.reset ∉ front) (keeps' : Op.reset ∉ back) :
    ∃ earlier rest later,
      (p.run (front ++ .pushNewPage f :: back)).2 ++
          [(p.run (front ++ .pushNewPage f :: back)).1.opened] =
        earlier ++ (f :: rest) :: later ∧
      earlier.flatten = p.opened ++ front.flatMap Op.facts := by
  have before := p.flatten_run_append_opened keeps
  rw [run_append]
  generalize p.run front = done at before
  obtain ⟨q, given⟩ := done
  dsimp only at before
  by_cases empty : q.opened = []
  · have begun : (q.apply (.pushNewPage f)) = ({ page := [f] }, none) :=
      pushNewPage_of_opened_eq_nil empty
    have opened : (opened { page := [f] }) = [f] := rfl
    obtain ⟨rest, later, sheets⟩ := exists_run_append_opened opened keeps'
    refine ⟨given, rest, later, ?_, ?_⟩
    · simp only [run, begun, List.append_assoc, Option.toList_none, List.nil_append, sheets]
    · rw [← before, empty, List.append_nil]
  · have begun : (q.apply (.pushNewPage f)) = ({ held := some f }, some q.opened) :=
      pushNewPage_of_opened_ne_nil empty
    have opened : (opened { held := some f }) = [f] := rfl
    obtain ⟨rest, later, sheets⟩ := exists_run_append_opened opened keeps'
    refine ⟨given ++ [q.opened], rest, later, ?_, ?_⟩
    · simp only [run, begun, List.append_assoc, Option.toList_some, sheets]
    · rw [List.flatten_append, List.flatten_singleton, before]

/-- The facts of a pager keep to one page, and one is held over an empty page only. -/
structure Sound (p : Pager) : Prop where
  lines_le : p.opened.lines ≤ Page.maxLines
  held : p.held.isSome → p.page = []

theorem Sound.fresh : Sound {} where
  lines_le := Nat.zero_le _
  held := by
    intro held
    cases held

theorem Sound.hold (f : Fact) : Sound { held := some f } where
  lines_le := Nat.le_trans f.lines_le (by decide)
  held := fun _ => rfl

theorem Sound.lay {page : Page} (fits : page.lines ≤ Page.maxLines) : Sound { page } where
  lines_le := fits
  held := by
    intro held
    cases held

theorem sound_apply (p : Pager) (op : Op) : (p.apply op).1.Sound := by
  cases op with
  | push f =>
    by_cases fits : p.opened.lines + f.lines ≤ Page.maxLines
    · rw [Pager.apply, push_of_lines_le fits]
      apply Sound.lay
      rw [Page.lines_append]
      exact fits
    · rw [Pager.apply, push_of_lt_lines (Nat.lt_of_not_le fits)]
      exact .hold f
  | pushNewPage f =>
    by_cases empty : p.opened = []
    · rw [Pager.apply, pushNewPage_of_opened_eq_nil empty]
      exact .lay (Nat.le_trans f.lines_le (by decide))
    · rw [Pager.apply, pushNewPage_of_opened_ne_nil empty]
      exact .hold f
  | flush => exact .fresh
  | reset => exact .fresh

theorem Sound.run {p : Pager} (sound : p.Sound) (ops : List Op) : (p.run ops).1.Sound := by
  induction ops generalizing p with
  | nil => exact sound
  | cons op ops ih => exact ih (sound_apply p op)

/-- A pager gives out its facts as they are, so its pages are as sound as it. -/
theorem Sound.given {p : Pager} (sound : p.Sound) {op : Op} {page : Page}
    (given : (p.apply op).2 = some page) : page ≠ [] ∧ page.lines ≤ Page.maxLines := by
  by_cases clears : op = .reset
  · subst clears
    cases given
  · have moves := p.moves_apply op clears
    generalize p.apply op = turn at moves given
    cases moves with
    | gathers opened => cases given
    | turns filled opened =>
      cases given
      exact ⟨filled, sound.lines_le⟩

theorem Sound.pages {p : Pager} (sound : p.Sound) (ops : List Op) :
    ∀ page ∈ (p.run ops).2, page ≠ [] ∧ page.lines ≤ Page.maxLines := by
  induction ops generalizing p with
  | nil =>
    intro page among
    cases among
  | cons op ops ih =>
    intro page among
    rcases List.mem_append.mp among with first | later
    · exact sound.given (Option.mem_toList.mp first)
    · exact ih (sound_apply p op) page later

theorem Sound.page_lines_le {p : Pager} (sound : p.Sound) : p.page.lines ≤ Page.maxLines := by
  have whole := sound.lines_le
  rw [opened, Page.lines_append] at whole
  omega

/-- A pager that counts the lines of its page along, and checks what it relies on. -/
structure Checked where
  page : Page := []
  lines : Nat := 0
  held : Option Fact := none

namespace Checked

/-- Puts a fact on the page, which must have room for one more. -/
def append (c : Checked) (f : Fact) : Except Fault Checked :=
  if Page.maxFacts ≤ c.page.length then .error .unexpectedState
  else .ok { c with page := c.page ++ [f], lines := c.lines + f.lines }

/-- Puts the held fact on the page, which must be empty. -/
def settle (c : Checked) : Except Fault Checked :=
  match c.held with
  | none => .ok c
  | some f =>
    if c.page.isEmpty then { c with held := none }.append f else .error .unexpectedState

def push (c : Checked) (f : Fact) : Except Fault (Checked × Option Page) := do
  let c ← c.settle
  if Page.maxLines < c.lines + f.lines ∨ Page.maxFacts ≤ c.page.length then
    return ({ held := some f }, some c.page)
  else return (← c.append f, none)

def pushNewPage (c : Checked) (f : Fact) : Except Fault (Checked × Option Page) := do
  let c ← c.settle
  if c.page.isEmpty then return (← c.append f, none)
  else return ({ held := some f }, some c.page)

def flush (c : Checked) : Except Fault (Checked × Option Page) := do
  let c ← c.settle
  if c.page.isEmpty then return (c, none) else return ({}, some c.page)

def apply (c : Checked) : Op → Except Fault (Checked × Option Page)
  | .push f => c.push f
  | .pushNewPage f => c.pushNewPage f
  | .flush => c.flush
  | .reset => .ok ({}, none)

def run (c : Checked) : List Op → Except Fault (Checked × List Page)
  | [] => .ok (c, [])
  | op :: ops => do
    let turn ← c.apply op
    let rest ← turn.1.run ops
    return (rest.1, turn.2.toList ++ rest.2)

theorem append_of_lt {c : Checked} (room : c.page.length < Page.maxFacts) (f : Fact) :
    c.append f = .ok { c with page := c.page ++ [f], lines := c.lines + f.lines } :=
  if_neg (Nat.not_le_of_lt room)

end Checked

/-- The careful pager in the same state. -/
def counted (p : Pager) : Checked := ⟨p.page, p.page.lines, p.held⟩

theorem append_counted (page : Page) (room : page.length < Page.maxFacts) (f : Fact) :
    (counted { page }).append f = .ok (counted { page := page ++ [f] }) := by
  rw [Checked.append_of_lt room]
  simp [counted, Page.lines_append, Page.lines]

theorem settle_counted {p : Pager} (sound : p.Sound) :
    p.counted.settle = .ok (counted { page := p.opened }) := by
  obtain ⟨page, held⟩ := p
  cases held with
  | none => rfl
  | some f =>
    obtain rfl : page = [] := sound.held rfl
    exact append_counted [] (by decide) f

theorem push_counted {p : Pager} (sound : p.Sound) (f : Fact) :
    p.counted.push f = .ok ((p.push f).1.counted, (p.push f).2) := by
  unfold Checked.push Pager.push
  rw [settle_counted sound]
  by_cases full : Page.maxLines < p.opened.lines + f.lines ∨ Page.maxFacts ≤ p.opened.length
  · rw [if_pos full]
    exact if_pos full
  · have room : p.opened.length < Page.maxFacts := Nat.lt_of_not_le (not_or.mp full).2
    have put := append_counted _ room f
    rw [if_neg full]
    refine (if_neg full).trans ?_
    rw [put]
    rfl

theorem pushNewPage_counted {p : Pager} (sound : p.Sound) (f : Fact) :
    p.counted.pushNewPage f = .ok ((p.pushNewPage f).1.counted, (p.pushNewPage f).2) := by
  unfold Checked.pushNewPage
  rw [settle_counted sound]
  by_cases empty : p.opened = []
  · have put := append_counted [] (by decide) f
    rw [pushNewPage_of_opened_eq_nil empty, empty]
    change (do return (← (counted {}).append f, none)) = _
    rw [put]
    rfl
  · rw [pushNewPage_of_opened_ne_nil empty]
    exact if_neg (by simpa [counted] using empty)

theorem flush_counted {p : Pager} (sound : p.Sound) :
    p.counted.flush = .ok (p.flush.1.counted, p.flush.2) := by
  unfold Checked.flush
  rw [settle_counted sound]
  by_cases empty : p.opened = []
  · rw [flush_of_opened_eq_nil empty, empty]
    rfl
  · rw [flush_of_opened_ne_nil empty]
    exact if_neg (by simpa [counted] using empty)

theorem apply_counted {p : Pager} (sound : p.Sound) (op : Op) :
    p.counted.apply op = .ok ((p.apply op).1.counted, (p.apply op).2) := by
  cases op with
  | push f => exact push_counted sound f
  | pushNewPage f => exact pushNewPage_counted sound f
  | flush => exact flush_counted sound
  | reset => rfl

/-- Checking finds nothing amiss, and counting along gives the lines of the page. -/
theorem run_counted {p : Pager} (sound : p.Sound) (ops : List Op) :
    p.counted.run ops = .ok ((p.run ops).1.counted, (p.run ops).2) := by
  induction ops generalizing p with
  | nil => rfl
  | cons op ops ih =>
    have rest := ih (sound_apply p op)
    unfold Checked.run
    rw [apply_counted sound]
    dsimp only [bind, Except.bind]
    rw [rest]
    rfl

/-- A new pager after operations that end at its last reset. -/
theorem run_of_reset {ops : List Op} (begun : ops = [] ∨ ops.getLast? = some .reset) :
    (run {} ops).1 = {} := by
  rcases begun with rfl | last
  · rfl
  · obtain ⟨front, rfl⟩ := List.getLast?_eq_some_iff.mp last
    rw [run_append]
    rfl

/-- What operations on a new pager come to. -/
structure Paginates (ops : List Op) : Prop where
  /-- No operation fails, were everything checked that could be; and lines counted along are those
  of the page. -/
  checked : Checked.run {} ops =
    .ok (⟨(run {} ops).1.page, (run {} ops).1.page.lines, (run {} ops).1.held⟩, (run {} ops).2)
  lines_le : (run {} ops).1.page.lines ≤ Page.maxLines
  length_le : (run {} ops).1.page.length ≤ Page.maxFacts
  held : (run {} ops).1.held.isSome → (run {} ops).1.page = []
  pages : ∀ page ∈ (run {} ops).2,
    page ≠ [] ∧ page.lines ≤ Page.maxLines ∧ page.length ≤ Page.maxFacts
  /-- Since the last reset, the pages given out, the current page and the held fact make up the
  facts pushed. A fact that is to open a page has a page begin with it, or the facts still kept. -/
  conserved (before since : List Op) (split : ops = before ++ since)
      (begun : before = [] ∨ before.getLast? = some .reset) (keeps : Op.reset ∉ since) :
    ∃ given, (run {} ops).2 = (run {} before).2 ++ given ∧
      given.flatten ++ (run {} ops).1.page ++ (run {} ops).1.held.toList =
        since.flatMap Op.facts ∧
      ∀ front f back, since = front ++ .pushNewPage f :: back →
        ∃ earlier rest later,
          given ++ [(run {} ops).1.opened] = earlier ++ (f :: rest) :: later ∧
            earlier.flatten = front.flatMap Op.facts

/-- Whatever is done with it, a pager keeps to its budget and gives out every fact once and in
order. -/
theorem paginates (ops : List Op) : Paginates ops := by
  have sound := Sound.fresh.run ops
  constructor
  case checked => exact run_counted .fresh ops
  case lines_le => exact sound.page_lines_le
  case length_le => exact Page.length_le_of_lines_le sound.page_lines_le
  case held => exact sound.held
  case pages =>
    intro page among
    obtain ⟨filled, fits⟩ := Sound.fresh.pages ops page among
    exact ⟨filled, fits, Page.length_le_of_lines_le fits⟩
  case conserved =>
    intro before since split begun keeps
    have fresh := run_of_reset begun
    have whole := run_append {} before since
    rw [fresh, ← split] at whole
    have kept := flatten_run_append_opened {} keeps
    have apart : (run {} ops).1.page ++ (run {} ops).1.held.toList = (run {} ops).1.opened := by
      cases holds : (run {} ops).1.held with
      | none => simp [opened, holds]
      | some f =>
        have empty := sound.held (by rw [holds]; rfl)
        simp [opened, holds, empty]
    refine ⟨(run {} since).2, congrArg Prod.snd whole, ?_, ?_⟩
    · rw [List.append_assoc, apart, whole]
      exact kept
    · rintro front f back rfl
      rw [List.mem_append, List.mem_cons, not_or, not_or] at keeps
      obtain ⟨earlier, rest, later, sheets, ahead⟩ :=
        exists_opens_page {} f keeps.1 keeps.2.2
      refine ⟨earlier, rest, later, ?_, ahead⟩
      rw [whole]
      exact sheets

end Pager

end WalletConsent
