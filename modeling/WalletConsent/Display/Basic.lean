import WalletConsent.Pager
import WalletConsent.Screen

/-!
The display that a flow works on. Facts gather in the pager; a warning, prompt or confirmation
first brings out the page gathered so far and is deferred behind it. At most one screen is
deferred: another one asked for meanwhile is a fault, and nothing is rendered.

An operation reports whether it rendered a screen; its outcome keeps the display and the renderings
also when it fails.
-/

set_option autoImplicit false

namespace WalletConsent

/-- What a flow asks the display to show. -/
inductive Item
  | fact (f : Fact)
  /-- A fact that opens a page. -/
  | pageFact (f : Fact)
  | warning (message : Text)
  | prompt (title subtitle : Text)
  | confirm (title subtitle : Text) (statuses : Statuses)
  deriving DecidableEq

namespace Item

def fact? (label value : String) : Except Fault Item := fact <$> Fact.of label value

def pageFact? (label value : String) : Except Fault Item := pageFact <$> Fact.of label value

def warning? (message : String) : Except Fault Item := warning <$> Text.of message

def prompt? (title subtitle : String) : Except Fault Item := do
  return prompt (← Text.of title) (← Text.of subtitle)

def confirm? (title subtitle : String) (statuses : Statuses) : Except Fault Item := do
  return confirm (← Text.of title) (← Text.of subtitle) statuses

end Item

inductive Shown
  | nothing
  | rendered
  deriving DecidableEq

structure Display where
  pager : Pager := {}
  style : ConfirmStyle := .full
  /-- Statuses of the confirmation asked for, if any. -/
  statuses : Option Statuses := none
  /-- The screen to go back to. -/
  current : Option Screen := none
  deferred : Option Screen := none
  deriving DecidableEq

structure Outcome (α : Type) where
  result : Except Fault α
  display : Display
  rendered : List Rendering := []

namespace Outcome

def map {α β : Type} (f : α → β) (o : Outcome α) : Outcome β :=
  { o with result := o.result.map f }

def bind {α β : Type} (o : Outcome α) (next : α → Display → Outcome β) : Outcome β :=
  match o.result with
  | .error fault => { o with result := .error fault }
  | .ok a =>
    let rest := next a o.display
    { rest with rendered := o.rendered ++ rest.rendered }

end Outcome

namespace Display

def isConfirmed (d : Display) : Bool := d.statuses.isSome

/-- Takes a pager over and renders the page that it gave out. -/
def turn (d : Display) : Pager.Turn → Outcome Shown
  | (pager, none) => { result := .ok .nothing, display := { d with pager } }
  | (pager, some page) =>
    { result := .ok .rendered
      display := { d with pager, current := some (.page page) }
      rendered := [.screen (.page page)] }

/-- Brings out the facts gathered so far. -/
def force (d : Display) : Outcome Shown := d.turn d.pager.flush

/-- Renders a screen, or the facts gathered so far with the screen deferred behind them. -/
def place (d : Display) (s : Screen) : Outcome Shown :=
  if d.deferred.isSome then { result := .error .unexpectedState, display := d }
  else
    match d.pager.flush with
    | (pager, some page) =>
      { result := .ok .rendered
        display := { d with pager, current := some (.page page), deferred := some s }
        rendered := [.screen (.page page)] }
    | (pager, none) =>
      { result := .ok .rendered
        display := { d with pager, current := some s }
        rendered := [.screen s] }

/-- A confirmation sets the statuses of the flow even if its screen then finds no place. -/
def put (d : Display) : Item → Outcome Shown
  | .fact f => d.turn (d.pager.push f)
  | .pageFact f => d.turn (d.pager.pushNewPage f)
  | .warning message => d.place (.warning message)
  | .prompt title subtitle => d.place (.choice ⟨.prompt, title, subtitle⟩)
  | .confirm title subtitle statuses =>
    { d with statuses := some statuses }.place (.choice ⟨.confirm d.style, title, subtitle⟩)

/-- Shows an item unless its texts were already refused. -/
def offer (d : Display) : Except Fault Item → Outcome Shown
  | .error fault => { result := .error fault, display := d }
  | .ok item => d.put item

/-- Renders the current screen again. -/
def restored (d : Display) : List Rendering := d.current.toList.map .screen

/-- Renders the deferred screen, if there is one. -/
def release? (d : Display) : Option (Display × List Rendering) :=
  d.deferred.map fun s => ({ d with current := some s, deferred := none }, [.screen s])

/-- The status that ends a flow. Approval shows one only after a confirmation. -/
def status (d : Display) (approved : Bool) : List Rendering :=
  match approved, d.statuses with
  | true, none => []
  | approved, statuses => [.status ((statuses.getD default).text approved) approved]

end Display

end WalletConsent
