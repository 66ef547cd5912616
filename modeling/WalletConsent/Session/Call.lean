import WalletConsent.Session.Basic

/-!
The calls that a session answers, and runs of them.
-/

set_option autoImplicit false

namespace WalletConsent

namespace Session

inductive Call
  | request (check : AddressCheck) (derive : Deriver) (r : Request) (style : ConfirmStyle)
  /-- Starts a flow that belongs to no request; none stands for the empty flow. -/
  | start (flow : Option Flow) (style : ConfirmStyle)
  | respond (response : Response)
  | reset

def perform (s : Session) : Call → Reply
  | .request check derive r style => s.request check derive r style
  | .start flow style => s.start flow style
  | .respond response => s.update response
  | .reset => { result := .ok .idle, session := s.reset }

/-- The replies to calls made one after the other. -/
def run (s : Session) : List Call → List Reply
  | [] => []
  | call :: calls => s.perform call :: (s.perform call).session.run calls

end Session

end WalletConsent
