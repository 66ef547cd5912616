import WalletConsent.Fact

/-!
Facts collected into pages. A fact that does not fit the page ends it: the page is given out, and
the fact is held until the next operation, where it opens the next page. No operation loses,
repeats or reorders a fact: what it gives out and what it keeps are what there was, and the fact
pushed.
-/

set_option autoImplicit false

namespace WalletConsent

structure Pager where
  page : Page := []
  held : Option Fact := none
  deriving DecidableEq

namespace Pager

def lines (p : Pager) : Nat := p.page.lines

def isEmpty (p : Pager) : Bool := p.page.isEmpty && p.held.isNone

/-- The page with the held fact put on it. -/
def opened (p : Pager) : Page := p.held.toList ++ p.page

/-- A pager that gives out a page, if any, and holds a fact over it. -/
abbrev Turn := Pager × Option Page

def push (p : Pager) (f : Fact) : Turn :=
  if Page.maxLines < p.opened.lines + f.lines ∨ Page.maxFacts ≤ p.opened.length then
    ({ held := some f }, some p.opened)
  else ({ page := p.opened ++ [f] }, none)

/-- The fact opens a page of its own. -/
def pushNewPage (p : Pager) (f : Fact) : Turn :=
  if p.opened.isEmpty then ({ page := [f] }, none) else ({ held := some f }, some p.opened)

def flush (p : Pager) : Turn :=
  ({}, if p.opened.isEmpty then none else some p.opened)

theorem getD_push_append (p : Pager) (f : Fact) :
    (p.push f).2.getD [] ++ (p.push f).1.opened = p.opened ++ [f] := by
  unfold push
  split <;> simp [opened]

theorem getD_pushNewPage_append (p : Pager) (f : Fact) :
    (p.pushNewPage f).2.getD [] ++ (p.pushNewPage f).1.opened = p.opened ++ [f] := by
  unfold pushNewPage
  split <;> simp_all [opened]

theorem getD_flush (p : Pager) : p.flush.2.getD [] = p.opened := by
  unfold flush
  split <;> simp_all

inductive Op
  | push (f : Fact)
  | pushNewPage (f : Fact)
  | flush
  | reset

def apply (p : Pager) : Op → Turn
  | .push f => p.push f
  | .pushNewPage f => p.pushNewPage f
  | .flush => p.flush
  | .reset => ({}, none)

end Pager

end WalletConsent
