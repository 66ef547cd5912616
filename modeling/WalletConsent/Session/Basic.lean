import WalletConsent.Request.Flow

/-!
A session answers requests one at a time. A request that needs consent starts a flow; the user's
responses carry it on until it exits approved or rejected. Any fault leaves the session idle and
without a transaction, save that starting the empty flow on an idle session changes nothing.

A transaction lasts from its announcement until its last witness has been handled, until it is
confirmed while no witness is expected, or until something is rejected or fails.
-/

set_option autoImplicit false

namespace WalletConsent

inductive Phase
  | idle
  | running
  /-- Every step has been handled; the last page waits to be accepted. -/
  | finishing
  deriving DecidableEq

inductive Response
  | accept
  | reject
  deriving DecidableEq

inductive Answer
  /-- There is no flow to respond to. -/
  | idle
  | pending
  | exit (approved : Bool)
  deriving DecidableEq

namespace Answer

def isExit : Answer → Bool
  | exit _ => true
  | idle | pending => false

/-- Whether the request may be carried out now; a rejection is a fault. -/
def approval : Answer → Except Fault Bool
  | exit true => .ok true
  | exit false => .error .userRejected
  | idle | pending => .ok false

end Answer

structure Session where
  phase : Phase := .idle
  /-- The user is being asked about a rejection. -/
  rejecting : Bool := false
  tx : Option TxContext := none
  /-- The last expected witness has been requested. -/
  closing : Bool := false
  flow : Option Flow := none
  display : Display := {}
  deriving DecidableEq

structure Reply where
  result : Except Fault Answer
  session : Session
  rendered : List Rendering := []
  /-- The steps handled, each with the kind of its flow. -/
  handled : List (Flow.Kind × Flow.Step) := []

namespace Session

def clearFlow (s : Session) : Session :=
  { s with phase := .idle, rejecting := false, flow := none, display := {} }

def endTx (s : Session) : Session := { s with tx := none, closing := false }

def reset (s : Session) : Session := s.clearFlow.endTx

def fail (s : Session) (fault : Fault) : Reply := { result := .error fault, session := s.reset }

/-- A confirmed transaction without witnesses has nothing left to do. -/
def isSettled (s : Session) : Bool :=
  s.flow.any (·.kind == .txConfirm) && s.tx.any (·.witnesses == 0)

def finish (s : Session) (approved : Bool) : Reply where
  result := .ok (.exit approved)
  session := if !approved || s.closing || s.isSettled then s.clearFlow.endTx else s.clearFlow
  rendered := s.display.status approved

/-- Facts left over when the flow is complete are shown before it exits. -/
def complete (s : Session) : Reply :=
  let last := s.display.force
  let s := { s with display := last.display }
  match last.result with
  | .error fault => { s.fail fault with rendered := last.rendered }
  | .ok .nothing => s.finish true
  | .ok .rendered =>
    { result := .ok .pending
      session := { s with phase := .finishing }
      rendered := last.rendered }

/-- Drives the flow on to where it waits for the user or ends. -/
def step (s : Session) : Reply :=
  let run := Flow.run s.flow s.display
  let s := { s with flow := run.flow, display := run.display }
  let reply : Reply :=
    match run.result with
    | .error fault => s.fail fault
    | .ok .suspended => { result := .ok .pending, session := s }
    | .ok .complete => s.complete
  { reply with rendered := run.rendered ++ reply.rendered, handled := run.handled }

/-- Starting while another flow is active gives up both. -/
def start (s : Session) (flow : Option Flow) (style : ConfirmStyle) : Reply :=
  if s.phase ≠ .idle then s.fail .unexpectedState
  else
    match flow with
    | none => { result := .error .unexpectedState, session := s }
    | some flow =>
      step { s with phase := .running, flow := some flow, display := { style } }

/-- A transaction is announced before its policies are asked for. -/
def announce (s : Session) : Request → Session
  | .txInit account _ _ witnesses => { s with tx := some ⟨account, witnesses⟩, closing := false }
  | _ => s

/-- Counts a witness request against those expected. -/
def countWitness (s : Session) : Request → Session
  | .witness _ =>
    match s.tx with
    | none => s
    | some tx =>
      let tx := { tx with witnesses := if tx.witnesses = 0 then 0 else tx.witnesses - 1 }
      { s with tx := some tx, closing := tx.witnesses == 0 }
  | _ => s

def request (s : Session) (check : AddressCheck) (derive : Deriver) (r : Request)
    (style : ConfirmStyle) : Reply :=
  if s.phase ≠ .idle then s.fail .unexpectedState
  else
    let s := s.announce r
    match r.flow s.tx check derive with
    | .error fault => s.fail fault
    | .ok flow =>
      let s := s.countWitness r
      match flow with
      | some flow => s.start (some flow) style
      | none =>
        { result := .ok (.exit true), session := if s.closing then s.endTx else s }

def accept (s : Session) : Reply :=
  if s.rejecting then s.finish false
  else
    match s.display.release? with
    | some (display, rendered) =>
      { result := .ok .pending, session := { s with display }, rendered }
    | none => if s.phase = .finishing then s.finish true else s.step

def reject (s : Session) : Reply :=
  if s.rejecting then
    { result := .ok .pending
      session := { s with rejecting := false }
      rendered := s.display.restored }
  else
    match s.display.style with
    | .light => s.finish false
    | .full =>
      { result := .ok .pending
        session := { s with rejecting := true }
        rendered := [.screen (.choice .rejection)] }

def update (s : Session) (response : Response) : Reply :=
  if s.phase = .idle then { result := .ok .idle, session := s }
  else
    match response with
    | .accept => s.accept
    | .reject => s.reject

end Session

end WalletConsent
