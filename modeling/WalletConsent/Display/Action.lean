import WalletConsent.Display.Basic

/-!
The actions of a display, with texts as they come: a text that is too long fails the action before
anything else is looked at.
-/

set_option autoImplicit false

namespace WalletConsent

namespace Display

inductive Action
  | fact (label value : String)
  | pageFact (label value : String)
  | warning (message : String)
  | prompt (title subtitle : String)
  | confirm (title subtitle : String) (statuses : Statuses)
  | force
  | reset
  deriving DecidableEq

def perform (d : Display) : Action → Outcome Shown
  | .fact label value => d.offer (Item.fact? label value)
  | .pageFact label value => d.offer (Item.pageFact? label value)
  | .warning message => d.offer (Item.warning? message)
  | .prompt title subtitle => d.offer (Item.prompt? title subtitle)
  | .confirm title subtitle statuses => d.offer (Item.confirm? title subtitle statuses)
  | .force => d.force
  | .reset => { result := .ok .nothing, display := {} }

/-- Performs actions up to the first that fails; the answer is that of the last one performed. -/
def performAll (d : Display) (actions : List Action) : Outcome Shown :=
  actions.foldl (fun o action => o.bind fun _ d => d.perform action)
    { result := .ok .nothing, display := d }

end Display

end WalletConsent
