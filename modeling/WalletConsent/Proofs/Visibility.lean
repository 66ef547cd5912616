import Mathlib.Data.List.Induction
import WalletConsent.Proofs.Cursor

/-!
What the user gets to see of a run. A call shows one screen, or ends with at most a status, or
renders nothing. While a session works on a flow it waits at the screen rendered last, and no fact
is passed over: those of the steps handled so far have been shown, up to the ones still gathered,
and before a question and at the end nothing is left gathered.
-/

set_option autoImplicit false

namespace WalletConsent

theorem Pager.isEmpty_iff {p : Pager} : p.isEmpty = true ↔ p.opened = [] := by
  rcases p with ⟨page, _ | f⟩ <;> simp [isEmpty, opened]

theorem Display.status_eq (d : Display) (approved : Bool) :
    d.status approved = [] ∨ ∃ text, d.status approved = [.status text approved] := by
  unfold Display.status
  split
  · exact .inl rfl
  · exact .inr ⟨_, rfl⟩

/-- What is rendered along with an answer. -/
def Reply.RendersAsAnswered (reply : Reply) : Prop :=
  match reply.result with
  | .ok .pending => ∃ screen, reply.rendered = [.screen screen]
  | .ok (.exit approved) =>
    reply.rendered = [] ∨ ∃ text, reply.rendered = [.status text approved]
  | .ok .idle | .error _ => reply.rendered = []

namespace Session

variable {s : Session}

theorem Concludes.rendersAsAnswered {reply : Reply} (concludes : s.Concludes reply) :
    reply.RendersAsAnswered := by
  unfold Reply.RendersAsAnswered
  cases concludes with
  | fails result session rendered =>
    rw [result]
    exact rendered
  | exits d result session rendered =>
    rw [result, rendered]
    exact Display.status_eq d _
  | advances advances =>
    rw [advances.result]
    exact ⟨_, advances.rendered⟩

theorem Performs.rendersAsAnswered {call : Call} {reply : Reply}
    (performs : s.Performs call reply) : reply.RendersAsAnswered := by
  cases performs with
  | refuses | voids | ignores | resets => rfl
  | begins idle opens begun concludes => exact concludes.rendersAsAnswered
  | goesOn shows concludes => exact concludes.rendersAsAnswered
  | givesUp shows => exact (concludes_finish s false).rendersAsAnswered
  | turns shows asking => exact ⟨_, rfl⟩

/-- The screens of an event, but for the question about a rejection. -/
def Event.screens (event : Event) : List Screen :=
  (event.reply.rendered.filterMap Rendering.screen?).filter (· ≠ .choice .rejection)

/-- The facts that an event brings into sight; going back shows a screen only once more. -/
def Event.facts (event : Event) : List Fact :=
  match event.call with
  | .respond .reject => []
  | _ => event.reply.rendered.flatMap Rendering.facts

/-- The steps handled in the events, one after the other. -/
def handled (events : List Event) : List Flow.Step := events.flatMap (·.reply.steps)

/-- The calls end with a flow and responses to it, which have shown its facts up to those that the
pager holds. -/
inductive FactsShown (calls : List Call) : Prop
  | intro (before : List Call) (opener : Call) (responses : List Response) (f : Flow)
      (split : calls = before ++ opener :: responses.map .respond)
      (idle : (Session.after {} before).phase = .idle) (opens : opener.opens = true)
      (active : (Session.after {} calls).flow = some f)
      (facts :
        let events := (Session.after {} before).history (opener :: responses.map .respond)
        events.flatMap Event.facts ++ (Session.after {} calls).display.pager.opened =
          (handled events).flatMap f.factsAt)

/-- Where calls to a fresh session lead if a flow is active behind them. -/
structure EndsAt (calls : List Call) (screen : Screen) : Prop where
  current : (Session.after {} calls).display.current = some screen
  last : ((Session.history {} calls).flatMap Event.screens).getLast? = some screen
  deferred : (Session.after {} calls).display.deferred.isSome →
    screen.isPage = true ∧ (Session.after {} calls).display.pager.isEmpty = true
  emptied : screen.isPage = false ∨ (Session.after {} calls).phase = .finishing →
    (Session.after {} calls).display.pager.isEmpty = true
  shown : FactsShown calls

theorem Shows.endsAt {calls : List Call} {screen : Screen}
    (shows : (Session.after {} calls).Shows screen)
    (last : ((Session.history {} calls).flatMap Event.screens).getLast? = some screen)
    (shown : FactsShown calls) : EndsAt calls screen where
  current := shows.current
  last := last
  deferred waiting := ⟨shows.paged waiting, Pager.isEmpty_iff.mpr (shows.behind waiting)⟩
  emptied := by
    rintro (asked | finishing)
    · exact Pager.isEmpty_iff.mpr (shows.asked asked).2
    · exact Pager.isEmpty_iff.mpr (shows.finished finishing)
  shown := shown

section

variable {calls : List Call} {call : Call} {screen : Screen} {f : Flow} {step : Flow.Step}

theorem last_concat (rendered : ((Session.after {} calls).perform call).rendered = [.screen screen])
    (own : screen ≠ .choice .rejection) :
    ((Session.history {} (calls ++ [call])).flatMap Event.screens).getLast? = some screen := by
  have shown : Event.screens ⟨Session.after {} calls, call⟩ = [screen] := by
    simp [Event.screens, Event.reply, rendered, Rendering.screen?, own]
  rw [history_concat, List.flatMap_append, List.flatMap_singleton, shown, List.getLast?_concat]

theorem FactsShown.begin (idle : (Session.after {} calls).phase = .idle)
    (opens : call.opens = true) (active : (Session.after {} (calls ++ [call])).flow = some f)
    (facts :
      Event.facts ⟨Session.after {} calls, call⟩ ++
          (Session.after {} (calls ++ [call])).display.pager.opened =
        ((Session.after {} calls).perform call).steps.flatMap f.factsAt) :
    FactsShown (calls ++ [call]) := by
  refine .intro calls call [] f rfl idle opens active ?_
  simpa [history, handled, Event.reply] using facts

/-- A response shows what was gathered, and gathers anew. -/
theorem FactsShown.respond (shown : FactsShown calls) (response : Response)
    (active : (Session.after {} calls).flow = some f)
    (active' : (Session.after {} (calls ++ [.respond response])).flow = some { f with step })
    (facts :
      Event.facts ⟨Session.after {} calls, .respond response⟩ ++
          (Session.after {} (calls ++ [.respond response])).display.pager.opened =
        (Session.after {} calls).display.pager.opened ++
          ((Session.after {} calls).perform (.respond response)).steps.flatMap f.factsAt) :
    FactsShown (calls ++ [.respond response]) := by
  obtain ⟨before, opener, responses, f', split, idle, opens, active₀, shownBefore⟩ := shown
  obtain rfl : f' = f := Option.some.inj (active₀.symm.trans active)
  let events := (Session.after {} before).history (opener :: responses.map .respond)
  let event : Event := ⟨Session.after {} calls, .respond response⟩
  have there : Session.after {} calls =
      (Session.after {} before).after (opener :: responses.map .respond) := by
    rw [split, after_append]
  have history : (Session.after {} before).history
      (opener :: (responses ++ [response]).map .respond) = events ++ [event] := by
    dsimp only [events, event]
    rw [there, ← history_concat, List.map_append]
    rfl
  refine .intro before opener (responses ++ [response]) { f' with step } ?_ idle opens active' ?_
  · rw [split, List.map_append, List.append_assoc]
    rfl
  · rw [history]
    generalize (Session.after {} (calls ++ [.respond response])).display.pager.opened = gathered
      at facts ⊢
    calc
      (events ++ [event]).flatMap Event.facts ++ gathered =
          events.flatMap Event.facts ++ (event.facts ++ gathered) := by simp
      _ = events.flatMap Event.facts ++ (Session.after {} calls).display.pager.opened ++
            event.reply.steps.flatMap f'.factsAt := by
        rw [List.append_assoc]
        exact congrArg (events.flatMap Event.facts ++ ·) facts
      _ = (handled events).flatMap f'.factsAt ++ event.reply.steps.flatMap f'.factsAt :=
        congrArg (· ++ event.reply.steps.flatMap f'.factsAt) shownBefore
      _ = (handled (events ++ [event])).flatMap f'.factsAt := by simp [handled]

/-- A call that asks for a flow renders facts for the first time. -/
theorem Event.facts_of_opens (opens : call.opens = true) (s : Session) :
    Event.facts ⟨s, call⟩ = (s.perform call).rendered.flatMap Rendering.facts := by
  cases call with
  | request | start => rfl
  | respond | reset => cases opens

theorem opened_enter (opens : call.opens = true) (s : Session) :
    (s.enter call).display.pager.opened = [] := by
  cases call with
  | request | start => rfl
  | respond | reset => cases opens

theorem endsAt_begin (idle : (Session.after {} calls).phase = .idle) (opens : call.opens = true)
    (advances :
      ((Session.after {} calls).enter call).Advances f screen
        ((Session.after {} calls).perform call)) :
    EndsAt (calls ++ [call]) screen := by
  obtain ⟨step, active⟩ := advances.flow
  have shows := advances.shows
  have facts := advances.facts
  rw [opened_enter opens, List.nil_append, ← Event.facts_of_opens opens] at facts
  rw [← after_concat] at shows active facts
  have last := last_concat advances.rendered shows.ne_rejection
  exact shows.endsAt last (.begin idle opens active facts)

theorem EndsAt.goOn {screen' : Screen} (ends : EndsAt calls screen')
    (advances :
      (Session.after {} calls).Advances f screen
        ((Session.after {} calls).perform (.respond .accept))) :
    EndsAt (calls ++ [.respond .accept]) screen := by
  obtain ⟨step, active⟩ := advances.flow
  have shows := advances.shows
  have facts := advances.facts
  rw [← after_concat] at shows active facts
  have last := last_concat advances.rendered shows.ne_rejection
  exact shows.endsAt last (ends.shown.respond .accept advances.active active facts)

/-- The question about a rejection leaves everything as it was but for a mark. -/
theorem EndsAt.turn {asking : Bool} (ends : EndsAt calls screen)
    (shows : (Session.after {} calls).Shows screen)
    (turned : (Session.after {} calls).perform (.respond .reject) =
      { result := .ok .pending
        session := { Session.after {} calls with rejecting := asking }
        rendered := [.screen (if asking then .choice .rejection else screen)] }) :
    EndsAt (calls ++ [.respond .reject]) screen := by
  obtain ⟨f, active⟩ := Option.isSome_iff_exists.mp shows.active
  have here : Session.after {} (calls ++ [.respond .reject]) =
      { Session.after {} calls with rejecting := asking } := by
    rw [after_concat, turned]
  have shows' : (Session.after {} (calls ++ [.respond .reject])).Shows screen := by
    rw [here]
    exact shows.turn asking
  have active' : (Session.after {} (calls ++ [.respond .reject])).flow = some f := by
    rw [here]
    exact active
  refine shows'.endsAt ?_ (ends.shown.respond .reject active active' ?_)
  · cases asking with
    | false => exact last_concat (by rw [turned]; rfl) shows.ne_rejection
    | true =>
      have quiet : Event.screens ⟨Session.after {} calls, .respond .reject⟩ = [] := by
        simp [Event.screens, Event.reply, turned, Rendering.screen?]
      rw [history_concat, List.flatMap_append, List.flatMap_singleton, quiet, List.append_nil]
      exact ends.last
  · rw [here, turned]
    exact (List.append_nil _).symm

end

/-- Behind which calls a session is at work. -/
theorem Performs.of_busy {call : Call} {reply : Reply} (performs : s.Performs call reply)
    (busy : reply.session.phase ≠ .idle) :
    (s.phase = .idle ∧ call.opens = true ∧
        ∃ f screen, (s.enter call).Advances f screen reply) ∨
      (s.phase ≠ .idle ∧ call = .respond .accept ∧ ∃ f screen, s.Advances f screen reply) ∨
      ∃ screen asking, s.Shows screen ∧ call = .respond .reject ∧
        reply =
          { result := .ok .pending
            session := { s with rejecting := asking }
            rendered := [.screen (if asking then .choice .rejection else screen)] } := by
  have ended : ∀ {s : Session}, s.Concludes reply → ∃ f screen, s.Advances f screen reply := by
    intro s concludes
    cases concludes with
    | fails result session rendered => exact absurd (by rw [session]) busy
    | exits d result session rendered => exact absurd (by rw [session]) busy
    | advances advances => exact ⟨_, _, advances⟩
  cases performs with
  | refuses | voids | ignores | resets => contradiction
  | givesUp shows => exact absurd (phase_finish s false) busy
  | begins idle opens begun concludes => exact .inl ⟨idle, opens, ended concludes⟩
  | goesOn shows concludes => exact .inr (.inl ⟨shows.busy, rfl, ended concludes⟩)
  | turns shows asking => exact .inr (.inr ⟨_, asking, shows, rfl, rfl⟩)

/-- By induction on the calls from the last one back: an active flow is one that the last call has
begun or carried on, or it has only been asked about a rejection. -/
theorem exists_endsAt (calls : List Call) (busy : (Session.after {} calls).phase ≠ .idle) :
    ∃ screen, EndsAt calls screen := by
  induction calls using List.reverseRecOn with
  | nil => contradiction
  | append_singleton calls call ih =>
    rw [after_concat] at busy
    rcases (performs (Reachable.fresh.after calls).tidy call).of_busy busy with
      ⟨idle, opens, f, screen, advances⟩ | ⟨before, rfl, f, screen, advances⟩ |
        ⟨screen, asking, shows, rfl, turned⟩
    · exact ⟨screen, endsAt_begin idle opens advances⟩
    · obtain ⟨screen', ends⟩ := ih before
      exact ⟨screen, ends.goOn advances⟩
    · obtain ⟨screen', ends⟩ := ih shows.busy
      obtain rfl : screen' = screen := Option.some.inj (ends.current.symm.trans shows.current)
      exact ⟨screen', ends.turn shows turned⟩

/-- Every call renders what goes with its answer, and behind every run that leaves a flow active
the user faces the screen rendered last, with no fact passed over. -/
theorem screens_in_turn (calls : List Call) :
    (∀ call, ((Session.after {} calls).perform call).RendersAsAnswered) ∧
      ((Session.after {} calls).phase ≠ .idle → ∃ screen, EndsAt calls screen) := by
  constructor
  · intro call
    exact (performs (Reachable.fresh.after calls).tidy call).rendersAsAnswered
  · intro busy
    exact exists_endsAt calls busy

end Session

end WalletConsent
