import Mathlib.Data.List.Chain
import WalletConsent.Proofs.Pagination

/-!
Facts pushed one after the other and flushed at the end come out divided greedily: a page is ended
only where the next fact would take it over the line budget (`Pager.run_push_flush`). No other
division of the facts in their order that keeps to the budget has fewer pages: wherever one of its
pages ends, the greedy division has come at least as far (`Page.length_greedy_le`).
-/

set_option autoImplicit false

namespace WalletConsent

namespace Page

/-- The longest front of a list of facts that keeps to a number of lines. -/
def front (room : Nat) : List Fact → Page
  | [] => []
  | f :: facts => if f.lines ≤ room then f :: front (room - f.lines) facts else []

/-- Facts divided greedily: a page takes the first fact, and those behind it as long as they fit. -/
def greedy : List Fact → List Page
  | [] => []
  | f :: facts =>
    let more := front (maxLines - f.lines) facts
    (f :: more) :: greedy (facts.drop more.length)
termination_by facts => facts.length
decreasing_by
  rw [List.length_drop, List.length_cons]
  omega

theorem front_append_drop (room : Nat) (facts : List Fact) :
    front room facts ++ facts.drop (front room facts).length = facts := by
  induction facts generalizing room with
  | nil => rfl
  | cons f facts ih =>
    by_cases fits : f.lines ≤ room
    · simp [front, fits, ih]
    · simp [front, fits]

theorem lines_front_le (room : Nat) (facts : List Fact) : (front room facts).lines ≤ room := by
  induction facts generalizing room with
  | nil => exact Nat.zero_le room
  | cons f facts ih =>
    by_cases fits : f.lines ≤ room
    · have rest := ih (room - f.lines)
      simp only [front, fits, if_true, lines]
      omega
    · simp [front, fits]

/-- The front ends where the next fact does not fit. -/
theorem lt_lines_front (room : Nat) (facts : List Fact) :
    ∀ f ∈ (facts.drop (front room facts).length).head?,
      room < (front room facts).lines + f.lines := by
  induction facts generalizing room with
  | nil =>
    intro f next
    cases next
  | cons g facts ih =>
    intro f next
    by_cases fits : g.lines ≤ room
    · simp only [front, fits, if_true, List.length_cons, List.drop_succ_cons] at next
      have rest := ih (room - g.lines) f next
      simp only [front, fits, if_true, lines]
      omega
    · simp only [front, fits, if_false, List.length_nil, List.drop_zero] at next
      cases next
      simp only [front, fits, if_false, lines_nil]
      omega

/-- What fits the room is no longer than the front. -/
theorem length_le_length_front {room : Nat} {page : Page} (later : List Fact)
    (fits : page.lines ≤ room) : page.length ≤ (front room (page ++ later)).length := by
  induction page generalizing room with
  | nil => exact Nat.zero_le _
  | cons f page ih =>
    simp only [lines] at fits
    have first : f.lines ≤ room := by omega
    have rest : page.length ≤ (front (room - f.lines) (page ++ later)).length := ih (by omega)
    simp only [List.cons_append, front, first, if_true, List.length_cons]
    omega

/-- What fits the room is the front, unless the next fact fits as well. -/
theorem front_append {room : Nat} {page : Page} {later : List Fact} (fits : page.lines ≤ room)
    (ends : ∀ f ∈ later.head?, room < page.lines + f.lines) :
    front room (page ++ later) = page := by
  induction page generalizing room with
  | nil =>
    cases later with
    | nil => rfl
    | cons f later =>
      have long : room < lines [] + f.lines := ends f rfl
      rw [lines_nil, Nat.zero_add] at long
      exact if_neg (Nat.not_le_of_lt long)
  | cons f page ih =>
    simp only [lines] at fits ends
    have first : f.lines ≤ room := by omega
    simp only [List.cons_append, front, first, if_true, List.cons.injEq, true_and]
    apply ih (by omega)
    intro g next
    have long := ends g next
    omega

theorem greedy_nil : greedy [] = [] := by
  rw [greedy]

/-- A page that fits is the first of the greedy division, unless the next fact fits as well. -/
theorem greedy_append {page : Page} {later : List Fact} (filled : page ≠ [])
    (fits : page.lines ≤ maxLines)
    (ends : ∀ f ∈ later.head?, maxLines < page.lines + f.lines) :
    greedy (page ++ later) = page :: greedy later := by
  obtain ⟨f, more, rfl⟩ := List.exists_cons_of_ne_nil filled
  simp only [lines] at fits ends
  have whole : front (maxLines - f.lines) (more ++ later) = more := by
    apply front_append (by omega)
    intro g next
    have long := ends g next
    omega
  rw [List.cons_append, greedy, whole, List.drop_left]

theorem flatten_greedy (facts : List Fact) : (greedy facts).flatten = facts := by
  induction facts using greedy.induct with
  | case1 => rw [greedy_nil, List.flatten_nil]
  | case2 f facts more ih =>
    rw [greedy, List.flatten_cons, ih, List.cons_append]
    exact congrArg (f :: ·) (front_append_drop _ facts)

theorem greedy_fits (facts : List Fact) :
    ∀ page ∈ greedy facts, page ≠ [] ∧ page.lines ≤ maxLines := by
  induction facts using greedy.induct with
  | case1 => simp [greedy]
  | case2 f facts more ih =>
    intro page among
    rw [greedy] at among
    rcases List.mem_cons.mp among with rfl | later
    · have short := f.lines_le
      have rest := lines_front_le (maxLines - f.lines) facts
      refine ⟨List.cons_ne_nil _ _, ?_⟩
      simp only [lines, maxLines] at rest ⊢
      omega
    · exact ih page later

/-- The greedy division begins with the first fact. -/
theorem head?_of_head?_greedy {facts : List Fact} {page : Page}
    (first : page ∈ (greedy facts).head?) : page.head? = facts.head? := by
  cases facts with
  | nil =>
    rw [greedy_nil] at first
    cases first
  | cons f facts =>
    rw [greedy] at first
    cases first
    rfl

/-- No page of the greedy division could also hold the first fact of the next one. -/
theorem isChain_greedy (facts : List Fact) :
    (greedy facts).IsChain
      (fun page next => ∀ f ∈ next.head?, maxLines < page.lines + f.lines) := by
  induction facts using greedy.induct with
  | case1 =>
    rw [greedy_nil]
    exact .nil
  | case2 f facts more ih =>
    rw [greedy]
    refine List.isChain_cons.mpr ⟨?_, ih⟩
    intro next second g first
    rw [head?_of_head?_greedy second] at first
    have long := lt_lines_front _ facts g first
    simp only [lines]
    omega

/-- What fits a page is no longer than the first page of the greedy division. -/
theorem length_le_length_first {f : Fact} {facts later : List Fact} {page : Page}
    (split : f :: facts = page ++ later) (fits : page.lines ≤ maxLines) :
    page.length ≤ (front (maxLines - f.lines) facts).length + 1 := by
  cases page with
  | nil => exact Nat.zero_le _
  | cons g page =>
    obtain ⟨rfl, rfl⟩ := List.cons.inj split
    apply Nat.succ_le_succ
    apply length_le_length_front
    simp only [lines] at fits
    omega

/-- The greedy division of facts has no more pages than a division within the budget that ends with
these facts. -/
theorem length_greedy_le {division : List Page} (fit : ∀ page ∈ division, page.lines ≤ maxLines)
    {facts : List Fact} (ends : facts <:+ division.flatten) :
    (greedy facts).length ≤ division.length := by
  induction division generalizing facts with
  | nil =>
    obtain rfl : facts = [] := List.suffix_nil.mp ends
    rw [greedy_nil]
  | cons page division ih =>
    cases facts with
    | nil =>
      rw [greedy_nil]
      exact Nat.zero_le _
    | cons f facts =>
      rw [greedy, List.length_cons, List.length_cons]
      apply Nat.succ_le_succ
      apply ih fun page among => fit page (List.mem_cons_of_mem _ among)
      obtain ⟨skipped, split⟩ := ends
      rw [List.flatten_cons, List.append_eq_append_iff] at split
      rw [← List.drop_succ_cons]
      rcases split with ⟨kept, whole, rest⟩ | ⟨passed, -, rest⟩
      · -- The facts begin within the page, and what it has of them fits the first greedy page.
        have fits : lines kept ≤ maxLines := by
          have all := fit page List.mem_cons_self
          rw [whole, lines_append] at all
          omega
        have far := length_le_length_first rest fits
        rw [rest, List.drop_append, List.drop_eq_nil_of_le far, List.nil_append]
        exact List.drop_suffix _ _
      · rw [rest]
        exact (List.drop_suffix _ _).trans (List.suffix_append _ _)

end Page

namespace Pager

/-- Behind a page begun, pushing facts and flushing divides them greedily. -/
theorem run_push_flush {p : Pager} (sound : p.Sound) (facts : List Fact) :
    p.run (facts.map Op.push ++ [.flush]) = ({}, Page.greedy (p.opened ++ facts)) := by
  induction facts generalizing p with
  | nil =>
    by_cases empty : p.opened = []
    · simp [run, apply, flush_of_opened_eq_nil empty, empty, Page.greedy_nil]
    · have last : Page.greedy (p.opened ++ []) = [p.opened] := by
        rw [Page.greedy_append empty sound.lines_le (by rintro f ⟨⟩), Page.greedy_nil]
      rw [last]
      simp [run, apply, flush_of_opened_ne_nil empty]
  | cons f facts ih =>
    have rest := ih (sound_apply p (.push f))
    simp only [List.map_cons, List.cons_append, run]
    rw [rest]
    by_cases fits : p.opened.lines + f.lines ≤ Page.maxLines
    · have pushed : p.apply (.push f) = ({ page := p.opened ++ [f] }, none) :=
        push_of_lines_le fits
      rw [pushed]
      simp
    · have pushed : p.apply (.push f) = ({ held := some f }, some p.opened) :=
        push_of_lt_lines (Nat.lt_of_not_le fits)
      have filled := opened_ne_nil_of_not_le fits
      have ended : Page.greedy (p.opened ++ f :: facts) =
          p.opened :: Page.greedy (f :: facts) := by
        apply Page.greedy_append filled sound.lines_le
        rintro g ⟨⟩
        exact Nat.lt_of_not_le fits
      rw [pushed, ended]
      rfl

/-- Facts pushed into a new pager and flushed come out divided greedily by the line budget alone,
and no division of them in their order that keeps to the budget has fewer pages. -/
theorem pushed_divided_greedily (facts : List Fact) :
    let ops := facts.map Op.push ++ [.flush]
    let pages := (run {} ops).2
    Checked.run {} ops = .ok ({}, pages) ∧
      pages = Page.greedy facts ∧
      pages.flatten = facts ∧
      (∀ page ∈ pages, page ≠ [] ∧ page.lines ≤ Page.maxLines ∧ page.length ≤ Page.maxFacts) ∧
      pages.IsChain (fun page next => ∀ f ∈ next.head?, Page.maxLines < page.lines + f.lines) ∧
      ∀ division : List Page, division.flatten = facts →
        (∀ page ∈ division, page.lines ≤ Page.maxLines) → pages.length ≤ division.length := by
  intro ops pages
  have done : run {} ops = ({}, Page.greedy facts) := run_push_flush .fresh facts
  have divided : pages = Page.greedy facts := congrArg Prod.snd done
  refine ⟨?_, divided, ?_, ?_, ?_, ?_⟩
  · have counted := run_counted .fresh ops
    rw [done] at counted
    rw [divided]
    exact counted
  · rw [divided]
    exact Page.flatten_greedy facts
  · rw [divided]
    intro page among
    obtain ⟨filled, fits⟩ := Page.greedy_fits facts page among
    exact ⟨filled, fits, Page.length_le_of_lines_le fits⟩
  · rw [divided]
    exact Page.isChain_greedy facts
  · intro division whole fit
    have ends : facts <:+ division.flatten := whole ▸ List.suffix_rfl
    rw [divided]
    exact Page.length_greedy_le fit ends

end Pager

end WalletConsent
