import WalletConsent.Proofs.Requests
import WalletConsent.Session.Call

/-!
Runs of calls, with the sessions that they lead to and the events on the way, and how a session
answers each call by what it is doing: an idle session takes requests and starts flows, one that is
not idle carries its flow on, and asked for another flow it gives up both.
-/

set_option autoImplicit false

namespace WalletConsent

namespace Session

/-- The session after calls made one after the other. -/
def after (s : Session) (calls : List Call) : Session :=
  calls.foldl (fun s call => (s.perform call).session) s

@[simp]
theorem after_nil (s : Session) : s.after [] = s := rfl

@[simp]
theorem after_cons (s : Session) (call : Call) (calls : List Call) :
    s.after (call :: calls) = (s.perform call).session.after calls := rfl

theorem after_append (s : Session) (calls calls' : List Call) :
    s.after (calls ++ calls') = (s.after calls).after calls' :=
  List.foldl_append

/-- A call of a run, and the session that it is made on. -/
structure Event where
  before : Session
  call : Call

def Event.reply (event : Event) : Reply := event.before.perform event.call

/-- The events of a run, in order. -/
def history (s : Session) : List Call → List Event
  | [] => []
  | call :: calls => ⟨s, call⟩ :: (s.perform call).session.history calls

theorem history_append (s : Session) (calls calls' : List Call) :
    s.history (calls ++ calls') = s.history calls ++ (s.after calls).history calls' := by
  induction calls generalizing s with
  | nil => rfl
  | cons call calls ih => exact congrArg (⟨s, call⟩ :: ·) (ih _)

theorem after_concat (s : Session) (calls : List Call) (call : Call) :
    s.after (calls ++ [call]) = ((s.after calls).perform call).session :=
  after_append s calls [call]

theorem history_concat (s : Session) (calls : List Call) (call : Call) :
    s.history (calls ++ [call]) = s.history calls ++ [⟨s.after calls, call⟩] :=
  history_append s calls [call]

theorem run_concat (s : Session) (calls : List Call) (call : Call) :
    s.run (calls ++ [call]) = s.run calls ++ [(s.after calls).perform call] := by
  induction calls generalizing s with
  | nil => rfl
  | cons first calls ih => exact congrArg (s.perform first :: ·) (ih _)

inductive Reachable : Session → Prop
  | fresh : Reachable {}
  | call {s : Session} (before : Reachable s) (call : Call) : Reachable (s.perform call).session

theorem Reachable.after {s : Session} (reachable : s.Reachable) (calls : List Call) :
    (s.after calls).Reachable := by
  induction calls generalizing s with
  | nil => exact reachable
  | cons call calls ih => exact ih (reachable.call call)

/-- A flow that exits leaves an idle session, and a transaction only if it was approved. -/
theorem session_finish (s : Session) (approved : Bool) :
    (s.finish approved).session =
      { tx := if !approved || s.closing || s.isSettled then none else s.tx } := by
  unfold finish
  split
  · rfl
  · rename_i stays
    have open_ : s.closing = false := by
      cases closing : s.closing with
      | false => rfl
      | true => simp [closing] at stays
    simp [clearFlow, open_]

@[simp]
theorem phase_finish (s : Session) (approved : Bool) :
    (s.finish approved).session.phase = .idle := by
  rw [session_finish]

/-- Starting while a flow is active gives up both. -/
theorem start_of_busy {s : Session} (busy : s.phase ≠ .idle) (flow : Option Flow)
    (style : ConfirmStyle) : s.start flow style = s.fail .unexpectedState :=
  if_pos busy

theorem idle_of_start {s : Session} {flow : Option Flow} {style : ConfirmStyle} {answer : Answer}
    (answered : (s.start flow style).result = .ok answer) : s.phase = .idle := by
  by_cases idle : s.phase = .idle
  · exact idle
  · rw [start_of_busy idle] at answered
    cases answered

/-- Starting the empty flow on an idle session changes nothing. -/
theorem start_none_of_idle {s : Session} (idle : s.phase = .idle) (style : ConfirmStyle) :
    s.start none style = { result := .error .unexpectedState, session := s } :=
  if_neg (by simp [idle])

theorem start_some_of_idle {s : Session} (idle : s.phase = .idle) (f : Flow)
    (style : ConfirmStyle) :
    s.start (some f) style =
      step { s with phase := .running, flow := some f, display := { style } } :=
  if_neg (by simp [idle])

@[simp]
theorem phase_announce (s : Session) (r : Request) : (s.announce r).phase = s.phase := by
  cases r <;> rfl

@[simp]
theorem phase_countWitness (s : Session) (r : Request) : (s.countWitness r).phase = s.phase := by
  cases r with
  | witness path => unfold countWitness; cases s.tx <;> rfl
  | _ => rfl

/-- A witness request always asks for a flow. -/
theorem countWitness_of_no_flow {r : Request} {ctx : Option TxContext} {check : AddressCheck}
    {derive : Deriver} (asked : r.flow ctx check derive = .ok none) (s : Session) :
    s.countWitness r = s := by
  have silent := Request.content?_of_no_flow asked
  cases r with
  | witness path => cases silent
  | _ => rfl

section

variable {s : Session} {check : AddressCheck} {derive : Deriver} {r : Request}
  {style : ConfirmStyle}

theorem request_of_busy (busy : s.phase ≠ .idle) :
    s.request check derive r style = s.fail .unexpectedState :=
  if_pos busy

theorem idle_of_request {answer : Answer}
    (answered : (s.request check derive r style).result = .ok answer) : s.phase = .idle := by
  by_cases idle : s.phase = .idle
  · exact idle
  · rw [request_of_busy idle] at answered
    cases answered

theorem request_of_error {fault : Fault} (idle : s.phase = .idle)
    (failed : r.flow (s.announce r).tx check derive = .error fault) :
    s.request check derive r style = (s.announce r).fail fault := by
  rw [request, if_neg (by simp [idle])]
  dsimp only
  rw [failed]

theorem request_of_flow {f : Flow} (idle : s.phase = .idle)
    (asked : r.flow (s.announce r).tx check derive = .ok (some f)) :
    s.request check derive r style = ((s.announce r).countWitness r).start (some f) style := by
  rw [request, if_neg (by simp [idle])]
  dsimp only
  rw [asked]

theorem request_of_no_flow (idle : s.phase = .idle)
    (silent : r.flow (s.announce r).tx check derive = .ok none) :
    s.request check derive r style =
      { result := .ok (.exit true)
        session := if (s.announce r).closing then (s.announce r).endTx else s.announce r } := by
  rw [request, if_neg (by simp [idle])]
  dsimp only
  rw [silent]
  dsimp only
  rw [countWitness_of_no_flow silent]

end

/-- An idle session has nothing to respond to. -/
theorem update_of_idle {s : Session} (idle : s.phase = .idle) (response : Response) :
    s.update response = { result := .ok .idle, session := s } :=
  if_pos idle

theorem after_responses_of_idle {s : Session} (idle : s.phase = .idle)
    (responses : List Response) : s.after (responses.map .respond) = s := by
  induction responses with
  | nil => rfl
  | cons response responses ih =>
    rw [List.map_cons, after_cons, perform, update_of_idle idle]
    exact ih

theorem update_accept {s : Session} (busy : s.phase ≠ .idle) : s.update .accept = s.accept :=
  if_neg busy

theorem update_reject {s : Session} (busy : s.phase ≠ .idle) : s.update .reject = s.reject :=
  if_neg busy

end Session

end WalletConsent
