import WalletConsent.Fact

/-!
What the user sees: screens that wait for a response, and statuses that end a flow.
-/

set_option autoImplicit false

namespace WalletConsent

inductive ConfirmStyle
  /-- Two buttons; a rejection is final. -/
  | light
  /-- Hold to approve; a rejection is asked about once more. -/
  | full
  deriving DecidableEq

inductive Choice.Kind
  | prompt
  | confirm (style : ConfirmStyle)
  | reject
  deriving DecidableEq

structure Choice where
  kind : Choice.Kind
  title : Text
  subtitle : Text
  deriving DecidableEq

namespace Choice

def Kind.acceptButton : Kind → String
  | prompt => "Continue"
  | confirm .light => "Confirm"
  | confirm .full => "Hold to approve"
  | reject => "Yes, Reject"

def Kind.rejectButton : Kind → String
  | prompt => "Reject"
  | confirm .light => "Cancel"
  | confirm .full => "Reject"
  | reject => "Go back"

/-- The second question after a rejection in the full style. -/
def rejection : Choice := ⟨.reject, ⟨"Reject?", by decide⟩, ⟨"", by decide⟩⟩

end Choice

inductive Screen
  | page (facts : Page)
  | warning (message : Text)
  | choice (c : Choice)
  deriving DecidableEq

/-- Status texts of a flow, by its outcome. -/
structure Statuses where
  approved : String
  rejected : String
  deriving DecidableEq

namespace Statuses

def action : Statuses := ⟨"Action confirmed", "Action rejected"⟩

def address : Statuses := ⟨"Address verified", "Address rejected"⟩

instance : Inhabited Statuses := ⟨action⟩

def text (s : Statuses) (approved : Bool) : String :=
  if approved then s.approved else s.rejected

end Statuses

/-- One call of the renderer. -/
inductive Rendering
  | screen (s : Screen)
  | status (text : String) (approved : Bool)
  deriving DecidableEq

end WalletConsent
