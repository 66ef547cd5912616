import WalletConsent.Proofs.Reachable

/-!
What a call can do to a session, said once (`Session.performs`). A call that the session is not
ready for is refused, ignored or void. Every other one begins a flow or goes on with one, which
fails, exits or shows its next screen; or it gives the flow up, or turns between its screen and the
question about a rejection.

An idle session holds its transaction and nothing else; one that is not idle waits at a screen.
Every call keeps this, whatever the flow, the step it stands at, the check and the deriver.
-/

set_option autoImplicit false

namespace WalletConsent

def Reply.steps (r : Reply) : List Flow.Step := r.handled.map Prod.snd

namespace Session

/-- Waiting at a screen of a flow; once every step is handled, no fact is left behind it. -/
structure Shows (s : Session) (screen : Screen) : Prop extends s.display.Poses screen where
  busy : s.phase ≠ .idle
  active : s.flow.isSome
  finished : s.phase = .finishing → s.display.pager.opened = []

/-- Idle and holding nothing but a transaction, or waiting at a screen. -/
inductive Tidy : Session → Prop
  | idle (tx : Option TxContext) : Tidy { tx }
  | active {s : Session} {screen : Screen} (shows : s.Shows screen) : Tidy s

theorem Tidy.eq_of_idle {s : Session} (tidy : s.Tidy) (idle : s.phase = .idle) :
    s = { tx := s.tx } := by
  cases tidy with
  | idle tx => rfl
  | active shows => exact absurd idle shows.busy

theorem Tidy.calm {s : Session} (tidy : s.Tidy) (idle : s.phase = .idle) : s.rejecting = false := by
  rw [tidy.eq_of_idle idle]

theorem Tidy.exists_shows {s : Session} (tidy : s.Tidy) (busy : s.phase ≠ .idle) :
    ∃ screen, s.Shows screen := by
  cases tidy with
  | idle tx => contradiction
  | @active s screen shows => exact ⟨screen, shows⟩

/-- Going on to the next screen of a flow. No fact is lost: those of the steps handled are shown or
gathered, after the ones that were gathered before. -/
structure Advances (s : Session) (f : Flow) (screen : Screen) (reply : Reply) : Prop where
  active : s.flow = some f
  result : reply.result = .ok .pending
  shows : reply.session.Shows screen
  flow : ∃ step, reply.session.flow = some { f with step }
  tx : reply.session.tx = s.tx
  closing : reply.session.closing = s.closing
  rendered : reply.rendered = [.screen screen]
  facts :
    reply.rendered.flatMap Rendering.facts ++ reply.session.display.pager.opened =
      s.display.pager.opened ++ reply.steps.flatMap f.factsAt

/-- What working on a flow comes to. -/
inductive Concludes (s : Session) (reply : Reply) : Prop
  | fails {fault : Fault} (result : reply.result = .error fault) (session : reply.session = {})
      (rendered : reply.rendered = [])
  | exits {approved : Bool} (d : Display) (result : reply.result = .ok (.exit approved))
      (session : reply.session =
        { tx := if !approved || s.closing || s.isSettled then none else s.tx })
      (rendered : reply.rendered = d.status approved)
  | advances {f : Flow} {screen : Screen} (advances : s.Advances f screen reply)

variable {s : Session} {f : Flow} {screen : Screen}

theorem concludes_finish (s : Session) (approved : Bool) : s.Concludes (s.finish approved) :=
  .exits s.display rfl (session_finish s approved) rfl

theorem complete_of_opened_eq_nil (empty : s.display.pager.opened = []) :
    s.complete = ({ s with display := { s.display with pager := {} } } : Session).finish true := by
  rw [complete, Display.force_of_opened_eq_nil empty]

theorem complete_of_opened_ne_nil (filled : s.display.pager.opened ≠ []) :
    s.complete =
      { result := .ok .pending
        session :=
          { s with
            display :=
              { s.display with pager := {}, current := some (.page s.display.pager.opened) }
            phase := .finishing }
        rendered := [.screen (.page s.display.pager.opened)] } := by
  rw [complete, Display.force_of_opened_ne_nil filled]

/-- The end of a flow, reached by handling steps that rendered nothing. -/
theorem concludes_complete (done : Session) {step : Flow.Step}
    {handled : List (Flow.Kind × Flow.Step)} (active : s.flow = some f)
    (active' : done.flow = some { f with step }) (tx : done.tx = s.tx)
    (closing : done.closing = s.closing) (free : done.display.deferred = none)
    (facts : done.display.pager.opened =
      s.display.pager.opened ++ (handled.map Prod.snd).flatMap f.factsAt) :
    s.Concludes { done.complete with handled } := by
  by_cases empty : done.display.pager.opened = []
  · have settled : done.isSettled = s.isSettled := by
      rw [isSettled, isSettled, active, active', tx]
      rfl
    rw [complete_of_opened_eq_nil empty]
    refine .exits done.display rfl ?_ rfl
    rw [← settled, ← closing, ← tx]
    exact session_finish _ true
  · rw [complete_of_opened_ne_nil empty]
    refine .advances
      { active, result := rfl, flow := ⟨step, active'⟩, tx, closing, rendered := rfl, facts := ?_
        shows :=
          { current := rfl, behind := fun _ => rfl, paged := fun _ => rfl, queued := ?_
            asked := Bool.noConfusion, busy := Phase.noConfusion, active := ?_
            finished := fun _ => rfl } }
    · simp [free]
    · simp [active']
    · simpa [Reply.steps, Rendering.facts] using facts

/-- Going on with a flow fails, exits or shows the next screen. -/
theorem concludes_step (active : s.flow = some f) (running : s.phase = .running)
    (free : s.display.deferred = none) : s.Concludes s.step := by
  have renders := Display.renders_play free (f.offers f.step)
  have plays := congrArg Prod.fst (Flow.drive_plays f f.step s.display)
  have facts := f.facts_drive f.step s.display
  unfold step
  simp only [active, Flow.run]
  generalize drive f.handle f.step s.display = driven at plays facts
  obtain ⟨result, step', display, rendered, handled⟩ := driven
  dsimp only at plays facts ⊢
  rw [← plays] at renders
  have unpaired : (handled.map fun step => (f.kind, step)).map Prod.snd = handled := by
    simp [Function.comp_def]
  rw [← unpaired] at facts
  cases renders with dsimp only
  | fails offered => exact .fails rfl rfl rfl
  | suspends poses =>
    refine .advances
      { active, result := rfl, flow := ⟨step', rfl⟩, tx := rfl, closing := rfl, rendered := rfl
        facts, shows := { toPoses := poses, busy := ?_, active := rfl, finished := ?_ } }
    · simp [running]
    · simp [running]
  | completes good free =>
    exact concludes_complete { s with flow := some { f with step := step' }, display }
      active rfl rfl rfl free facts

/-- Turning to the question about a rejection and back leaves the screen where it is. -/
theorem Shows.turn (shows : s.Shows screen) (asking : Bool) :
    ({ s with rejecting := asking } : Session).Shows screen where
  toPoses := shows.toPoses
  busy := shows.busy
  active := shows.active
  finished := shows.finished

theorem Shows.running (shows : s.Shows screen) (unfinished : s.phase ≠ .finishing) :
    s.phase = .running := by
  cases phase : s.phase with
  | idle => exact absurd phase shows.busy
  | running => rfl
  | finishing => contradiction

theorem concludes_accept (shows : s.Shows screen) : s.Concludes s.accept := by
  obtain ⟨f, active⟩ := Option.isSome_iff_exists.mp shows.active
  unfold accept Display.release?
  by_cases rejecting : s.rejecting = true
  · rw [if_pos rejecting]
    exact concludes_finish s false
  · rw [if_neg rejecting]
    cases deferred : s.display.deferred with
    | some next =>
      have empty : s.display.pager.opened = [] := shows.behind (by simp [deferred])
      have asks : next.Question := shows.queued next deferred
      refine .advances
        { active, result := rfl, flow := ⟨f.step, active⟩, tx := rfl, closing := rfl
          rendered := rfl, facts := ?_
          shows :=
            { current := rfl, behind := fun _ => empty, paged := ?_, queued := ?_
              asked := fun _ => ⟨asks, empty⟩, busy := shows.busy, active := shows.active
              finished := shows.finished } }
      · intro waiting
        cases waiting
      · rintro later ⟨⟩
      · simp [Reply.steps, asks.facts_eq_nil]
    | none =>
      by_cases finishing : s.phase = .finishing
      · dsimp only [Option.map_none]
        rw [if_pos finishing]
        exact concludes_finish s true
      · dsimp only [Option.map_none]
        rw [if_neg finishing]
        exact concludes_step active (shows.running finishing) deferred

theorem Concludes.tidy {reply : Reply} (concludes : s.Concludes reply) : reply.session.Tidy := by
  cases concludes with
  | fails result session rendered =>
    rw [session]
    exact .idle none
  | exits d result session rendered =>
    rw [session]
    exact .idle _
  | advances advances => exact .active advances.shows

/-- A call that asks for a flow of its own. -/
def Call.opens : Call → Bool
  | .request .. | .start .. => true
  | .respond _ | .reset => false

/-- The flow that a call is about: the one that it asks for, or the one that it responds to. -/
def Call.flow? (s : Session) : Call → Option Flow
  | .request check derive r _ => (r.flow (s.announce r).tx check derive).toOption.join
  | .start flow _ => flow
  | .respond _ => s.flow
  | .reset => none

/-- The session that a call works on: where it asks for a flow, that flow is now the active one. -/
def enter (s : Session) (call : Call) : Session :=
  match call with
  | .request _ _ r style =>
    { (s.announce r).countWitness r with
      phase := .running
      flow := call.flow? s
      display := { style } }
  | .start flow style => { s with phase := .running, flow, display := { style } }
  | .respond _ | .reset => s

/-- What a call comes to. -/
inductive Performs (s : Session) : Call → Reply → Prop
  /-- While it works on a flow, a session cannot be asked for another. -/
  | refuses {call : Call} (busy : s.phase ≠ .idle) (opens : call.opens = true) :
      Performs s call (s.fail .unexpectedState)
  /-- There is nothing to start. -/
  | voids (idle : s.phase = .idle) (style : ConfirmStyle) :
      Performs s (.start none style) { result := .error .unexpectedState, session := s }
  /-- There is nothing to respond to. -/
  | ignores (idle : s.phase = .idle) (response : Response) :
      Performs s (.respond response) { result := .ok .idle, session := s }
  | resets : Performs s .reset { result := .ok .idle, session := {} }
  | begins {call : Call} {reply : Reply} (idle : s.phase = .idle) (opens : call.opens = true)
      (begun : ∀ style, call ≠ .start none style)
      (concludes : (s.enter call).Concludes reply) : Performs s call reply
  | goesOn {screen : Screen} {reply : Reply} (shows : s.Shows screen)
      (concludes : s.Concludes reply) : Performs s (.respond .accept) reply
  | givesUp {screen : Screen} (shows : s.Shows screen) :
      Performs s (.respond .reject) (s.finish false)
  /-- The user is asked about a rejection, or goes back from there to the screen. -/
  | turns {screen : Screen} (shows : s.Shows screen) (asking : Bool) :
      Performs s (.respond .reject)
        { result := .ok .pending
          session := { s with rejecting := asking }
          rendered := [.screen (if asking then .choice .rejection else screen)] }

theorem begins_request (tidy : s.Tidy) (idle : s.phase = .idle) (check : AddressCheck)
    (derive : Deriver) (r : Request) (style : ConfirmStyle) :
    (s.enter (.request check derive r style)).Concludes (s.request check derive r style) := by
  cases asked : r.flow (s.announce r).tx check derive with
  | error fault =>
    rw [request_of_error idle asked]
    exact .fails rfl rfl rfl
  | ok flow =>
    have active : (s.enter (.request check derive r style)).flow = flow := by
      simp [enter, Call.flow?, asked, Except.toOption]
    cases flow with
    | some f =>
      have still : ((s.announce r).countWitness r).phase = .idle := by simpa using idle
      rw [request_of_flow idle asked, start_some_of_idle still, ← active]
      exact concludes_step active rfl rfl
    | none =>
      have clean : s.announce r = { tx := (s.announce r).tx } := by
        rw [tidy.eq_of_idle idle]
        cases r <;> rfl
      have opened : (s.announce r).closing = false := by rw [clean]
      have uncounted := countWitness_of_no_flow asked (s.announce r)
      rw [request_of_no_flow idle asked, opened]
      refine .exits {} rfl ?_ rfl
      rw [isSettled, active]
      simpa [enter, uncounted, opened] using clean

theorem performs_reject (shows : s.Shows screen) : s.Performs (.respond .reject) s.reject := by
  unfold reject Display.restored
  by_cases rejecting : s.rejecting = true
  · rw [if_pos rejecting, shows.current]
    exact .turns shows false
  · rw [if_neg rejecting]
    cases s.display.style with
    | light => exact .givesUp shows
    | full => exact .turns shows true

theorem performs (tidy : s.Tidy) (call : Call) : s.Performs call (s.perform call) := by
  by_cases idle : s.phase = .idle
  · cases call with
    | request check derive r style =>
      refine .begins idle rfl ?_ (begins_request tidy idle check derive r style)
      rintro style ⟨⟩
    | start flow style =>
      cases flow with
      | none =>
        rw [perform, start_none_of_idle idle]
        exact .voids idle style
      | some f =>
        refine .begins idle rfl ?_ ?_
        · rintro style ⟨⟩
        · rw [perform, start_some_of_idle idle]
          exact concludes_step rfl rfl rfl
    | respond response =>
      rw [perform, update_of_idle idle]
      exact .ignores idle response
    | reset => exact .resets
  · obtain ⟨screen, shows⟩ := tidy.exists_shows idle
    cases call with
    | request check derive r style =>
      rw [perform, request_of_busy idle]
      exact .refuses idle rfl
    | start flow style =>
      rw [perform, start_of_busy idle]
      exact .refuses idle rfl
    | respond response =>
      cases response with
      | accept =>
        rw [perform, update_accept idle]
        exact .goesOn shows (concludes_accept shows)
      | reject =>
        rw [perform, update_reject idle]
        exact performs_reject shows
    | reset => exact .resets

theorem Performs.tidy {call : Call} {reply : Reply} (performs : s.Performs call reply)
    (tidy : s.Tidy) : reply.session.Tidy := by
  cases performs with
  | refuses busy opens => exact .idle none
  | voids idle style => exact tidy
  | ignores idle response => exact tidy
  | resets => exact .idle none
  | begins idle opens begun concludes => exact concludes.tidy
  | goesOn shows concludes => exact concludes.tidy
  | givesUp shows => exact (concludes_finish s false).tidy
  | turns shows asking => exact .active (shows.turn asking)

theorem tidy_perform (tidy : s.Tidy) (call : Call) : (s.perform call).session.Tidy :=
  (performs tidy call).tidy tidy

theorem Reachable.tidy (reachable : s.Reachable) : s.Tidy := by
  induction reachable with
  | fresh => exact .idle none
  | call before call ih => exact tidy_perform ih call

end Session

end WalletConsent
