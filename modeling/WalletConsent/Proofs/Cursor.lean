import WalletConsent.Proofs.Walk

/-!
A flow under arbitrary responses. However the user accepts, rejects and goes back, the session
behaves as a cursor on the screens of the accepting run, with a mark while the rejection is asked
about. Detours leave no trace, only the last of the screens accepted approves, and a rejection is
within reach wherever the session waits.
-/

set_option autoImplicit false

namespace WalletConsent

/-- Where the user stands in a flow: at one of its screens, perhaps asked about a rejection, or
behind its exit. -/
inductive Cursor
  | on (i : Nat) (rejecting : Bool)
  | done
  deriving DecidableEq

/-- The screen that shows after a reply. -/
def Reply.showing (r : Reply) (before : Option Screen) : Option Screen :=
  (r.rendered.filterMap Rendering.screen?).getLast?.or before

namespace Cursor

/-- The cursor after a response, with `count` screens to accept. -/
def next (style : ConfirmStyle) (count : Nat) : Cursor → Response → Cursor
  | on i false, .accept => if i + 1 < count then on (i + 1) false else done
  | on i false, .reject =>
    match style with
    | .light => done
    | .full => on i true
  | on _ true, .accept => done
  | on i true, .reject => on i false
  | done, _ => done

/-- What a response is answered, and what it renders. -/
def answer (style : ConfirmStyle) (screens : List Screen) (approval rejection : List Rendering) :
    Cursor → Response → Except Fault Answer × List Rendering
  | on i false, .accept =>
    match screens[i + 1]? with
    | some screen => (.ok .pending, [.screen screen])
    | none => (.ok (.exit true), approval)
  | on _ false, .reject =>
    match style with
    | .light => (.ok (.exit false), rejection)
    | .full => (.ok .pending, [.screen (.choice .rejection)])
  | on _ true, .accept => (.ok (.exit false), rejection)
  | on i true, .reject => (.ok .pending, screens[i]?.toList.map .screen)
  | done, _ => (.ok .idle, [])

theorem answer_reject_ne {style : ConfirmStyle} {screens : List Screen}
    {approval rejection : List Rendering} (cursor : Cursor) :
    (cursor.answer style screens approval rejection .reject).1 ≠ .ok (.exit true) := by
  intro approved
  cases cursor with
  | on i rejecting => cases rejecting <;> cases style <;> cases approved
  | done => cases approved

/-- Where responses lead from the first screen. -/
def after (style : ConfirmStyle) (count : Nat) (past : List Response) : Cursor :=
  past.foldl (next style count) (on 0 false)

end Cursor

namespace Session

/-- A flow started on the session, and responses to it. -/
def dialogue (flow : Flow) (style : ConfirmStyle) (past : List Response) : List Call :=
  .start (some flow) style :: past.map .respond

/-- The screens that responses accept, each while it is the one that shows. -/
def accepted (s : Session) (showing : Option Screen) : List Response → List Screen
  | [] => []
  | response :: later =>
    let reply := s.update response
    let rest := reply.session.accepted (reply.showing showing) later
    match response with
    | .accept => showing.toList ++ rest
    | .reject => rest

/-- A flow started on a session and carried on by responses, whatever they are. -/
structure FollowsCursor (s : Session) (flow : Flow) (style : ConfirmStyle)
    (screens : List Screen) : Prop where
  /-- The screens are those of the run that accepts all the way. -/
  accepting :
    (s.run (dialogue flow style (List.replicate screens.length .accept))).map Reply.seen =
      screens.map (fun screen => (.ok .pending, [.screen screen])) ++
        [(.ok (.exit true), Statuses.approval (Item.lastStatuses none flow.items))]
  /-- A response is answered as the cursor says; a rejection ends with the status of the last
  confirmation handled so far. -/
  answers (past : List Response) (response : Response) :
    ((s.after (dialogue flow style past)).update response).seen =
      (Cursor.after style screens.length past).answer style screens
        (Statuses.approval (Item.lastStatuses none flow.items))
        (Statuses.rejection
          (flow.confirmed ((s.run (dialogue flow style past)).flatMap Reply.steps)))
        response
  idle (past : List Response) :
    (s.after (dialogue flow style past)).phase = .idle ↔
      Cursor.after style screens.length past = .done
  /-- Asking for a rejection and going back, any number of times, leaves no trace. -/
  goesBack (past : List Response) (i n : Nat) (full : style = .full)
      (there : Cursor.after style screens.length past = .on i false) :
    s.after (dialogue flow style (past ++ List.replicate (2 * n) .reject)) =
      s.after (dialogue flow style past)
  /-- No rejection approves. -/
  rejects (past : List Response) :
    ((s.after (dialogue flow style past)).update .reject).result ≠ .ok (.exit true)
  /-- A rejection leaves nothing behind, neither the flow nor the transaction. -/
  rejected (past : List Response) (response : Response)
      (rejected : ((s.after (dialogue flow style past)).update response).result =
        .ok (.exit false)) :
    ((s.after (dialogue flow style past)).update response).session = {}
  /-- What is approved has been accepted screen by screen. -/
  approves (past : List Response) (response : Response)
      (approved : ((s.after (dialogue flow style past)).update response).result =
        .ok (.exit true)) :
    let started := s.start (some flow) style
    started.session.accepted (started.showing none) (past ++ [response]) = screens
  /-- Wherever the session waits, it can still be brought to a rejection. -/
  rejectable (past : List Response) (busy : (s.after (dialogue flow style past)).phase ≠ .idle) :
    ∃ more response,
      ((s.after (dialogue flow style (past ++ more))).update response).result =
        .ok (.exit false)

variable {s : Session} {flow : Flow} {step : Flow.Step} {style : ConfirmStyle}
  {statuses : Option Statuses} {screen : Screen} {rest screens : List Screen}
  {steps : List Flow.Step}

theorem statuses_complete (pending : s.complete.result = .ok .pending) :
    s.complete.session.display.statuses = s.display.statuses := by
  by_cases empty : s.display.pager.opened = []
  · rw [complete_of_opened_eq_nil empty] at pending
    cases pending
  · rw [complete_of_opened_ne_nil empty]

/-- Going on to another screen, the statuses in force are those of the last confirmation. -/
theorem statuses_step (active : s.flow = some { flow with step })
    (pending : s.step.result = .ok .pending) :
    s.step.session.display.statuses = (flow.confirmed s.step.steps).or s.display.statuses := by
  have driven := Flow.statuses_drive { flow with step } step s.display
  unfold Session.step at pending ⊢
  simp only [active, Flow.run] at pending ⊢
  generalize drive _ step s.display = ended at driven pending
  obtain ⟨result, step', display, rendered, handled⟩ := ended
  have same : (handled.map fun step' => (({ flow with step } : Flow).kind, step')).map Prod.snd =
      handled := by
    simp [Function.comp_def]
  rw [Reply.steps, same]
  cases result with
  | error fault => cases pending
  | ok progress =>
    cases progress with
    | suspended => exact driven
    | complete => exact (statuses_complete pending).trans driven

theorem statuses_accept (waits : s.Waits flow style statuses screen rest)
    (pending : s.accept.result = .ok .pending) :
    s.accept.session.display.statuses = (flow.confirmed s.accept.steps).or s.display.statuses := by
  obtain ⟨step, items, active, -, -, -, phase⟩ := waits.left
  unfold accept Display.release? at pending ⊢
  rw [if_neg (by simp [waits.calm])] at pending ⊢
  cases deferred : s.display.deferred with
  | some next => rfl
  | none =>
    rw [deferred] at pending
    dsimp only [Option.map_none] at pending ⊢
    rcases phase with running | ⟨finishing, -⟩
    · rw [if_neg (by simp [running])] at pending ⊢
      exact statuses_step active pending
    · rw [if_pos finishing] at pending
      cases pending

/-- A session in front of the cursor; `steps` are those handled so far. -/
inductive Follows (flow : Flow) (style : ConfirmStyle) (statuses : Option Statuses)
    (screens : List Screen) (steps : List Flow.Step) : Session → Cursor → Prop
  | waits {s : Session} {i : Nat} {screen : Screen} {rest : List Screen}
      (place : screens.drop i = screen :: rest)
      (waits : s.Waits flow style statuses screen rest)
      (asked : s.display.statuses = flow.confirmed steps) :
      Follows flow style statuses screens steps s (.on i false)
  | asks {s : Session} {i : Nat} {screen : Screen} {rest : List Screen} (full : style = .full)
      (place : screens.drop i = screen :: rest)
      (waits : s.Waits flow style statuses screen rest)
      (asked : s.display.statuses = flow.confirmed steps) :
      Follows flow style statuses screens steps { s with rejecting := true } (.on i true)
  | done {s : Session} (idle : s.phase = .idle) :
      Follows flow style statuses screens steps s .done

variable {cursor : Cursor}

theorem Follows.accept {i : Nat} (place : screens.drop i = screen :: rest)
    (waits : s.Waits flow style statuses screen rest)
    (asked : s.display.statuses = flow.confirmed steps) :
    s.accept.seen =
        (Cursor.on i false).answer style screens (Statuses.approval statuses)
          (Statuses.rejection (flow.confirmed steps)) .accept ∧
      Follows flow style statuses screens (steps ++ s.accept.steps) s.accept.session
        ((Cursor.on i false).next style screens.length .accept) := by
  have walks := waits.walks_accept
  have kept := statuses_accept waits
  have following : screens.drop (i + 1) = rest := by
    rw [← List.drop_drop, place]
    rfl
  have ahead : screens[i + 1]? = rest.head? := by rw [← following, List.head?_drop]
  rw [Cursor.answer, Cursor.next, ahead]
  generalize s.accept = reply at walks kept
  cases walks with
  | @shows next rest reply seen waits' =>
    have inside : i + 1 < screens.length := (List.getElem?_eq_some_iff.mp ahead).1
    rw [if_pos inside]
    refine ⟨seen, .waits following waits' ?_⟩
    rw [kept (congrArg Prod.fst seen), asked, Flow.confirmed_append]
  | exits seen idle =>
    have outside : ¬ i + 1 < screens.length :=
      Nat.not_lt_of_le (List.getElem?_eq_none_iff.mp ahead)
    rw [if_neg outside]
    exact ⟨seen, .done idle⟩

/-- One response moves the session along with the cursor. -/
theorem Follows.update (follows : Follows flow style statuses screens steps s cursor)
    (response : Response) :
    (s.update response).seen =
        cursor.answer style screens (Statuses.approval statuses)
          (Statuses.rejection (flow.confirmed steps)) response ∧
      Follows flow style statuses screens (steps ++ (s.update response).steps)
        (s.update response).session (cursor.next style screens.length response) := by
  cases follows with
  | waits place waits asked =>
    cases response with
    | accept =>
      rw [update_accept waits.phase_ne_idle]
      exact Follows.accept place waits asked
    | reject =>
      rw [update_reject waits.phase_ne_idle]
      dsimp only [Session.reject]
      rw [if_neg (by simp [waits.calm]), waits.style]
      cases style with
      | light =>
        rw [← asked]
        exact ⟨seen_finish_false s, .done (phase_finish s false)⟩
      | full =>
        refine ⟨rfl, .asks rfl place waits ?_⟩
        rw [asked]
        exact congrArg flow.confirmed (List.append_nil steps).symm
  | @asks s i screen rest full place waits asked =>
    have busy : ({ s with rejecting := true } : Session).phase ≠ .idle := waits.phase_ne_idle
    cases response with
    | accept =>
      rw [update_accept busy]
      dsimp only [Session.accept]
      rw [if_pos rfl, ← asked]
      exact ⟨seen_finish_false _, .done (phase_finish _ false)⟩
    | reject =>
      have shown : screens[i]? = some screen := by rw [← List.head?_drop, place, List.head?_cons]
      -- The mark is all that asking has changed, so taking it away restores the session.
      have back : ({ s with rejecting := false } : Session) = s := by rw [← waits.calm]
      rw [update_reject busy]
      dsimp only [Session.reject]
      rw [if_pos rfl]
      refine ⟨?_, ?_⟩
      · rw [Cursor.answer, shown, ← waits.current]
        rfl
      · dsimp only [Reply.steps]
        rw [back, List.map_nil, List.append_nil]
        exact .waits place waits asked
  | done idle =>
    rw [update_of_idle idle]
    exact ⟨rfl, .done idle⟩

theorem Follows.run (follows : Follows flow style statuses screens steps s cursor)
    (past : List Response) :
    Follows flow style statuses screens
      (steps ++ (s.run (past.map .respond)).flatMap Reply.steps) (s.after (past.map .respond))
      (past.foldl (Cursor.next style screens.length) cursor) := by
  induction past generalizing s steps cursor with
  | nil => simpa [Session.run] using follows
  | cons response past ih =>
    have rest := ih (follows.update response).2
    rw [List.append_assoc] at rest
    exact rest

theorem Follows.idle_iff (follows : Follows flow style statuses screens steps s cursor) :
    s.phase = .idle ↔ cursor = .done := by
  cases follows with
  | waits place waits asked => simp [waits.phase_ne_idle]
  | asks full place waits asked =>
    have busy := waits.phase_ne_idle
    simpa using busy
  | done idle => simp [idle]

theorem Follows.calm {i : Nat}
    (follows : Follows flow style statuses screens steps s (.on i false)) :
    s.rejecting = false := by
  cases follows with
  | waits place waits asked => exact waits.calm

theorem Follows.detour {i : Nat}
    (follows : Follows flow .full statuses screens steps s (.on i false)) :
    ((s.update .reject).session.update .reject).session = s := by
  cases follows with
  | waits place waits asked =>
    have questioned : s.reject.session = { s with rejecting := true } := by
      unfold Session.reject
      rw [if_neg (by simp [waits.calm]), waits.style]
    have busy : ({ s with rejecting := true } : Session).phase ≠ .idle := waits.phase_ne_idle
    rw [update_reject waits.phase_ne_idle, questioned, update_reject busy]
    unfold Session.reject
    rw [if_pos rfl, ← waits.calm]

theorem Follows.detours {i : Nat}
    (follows : Follows flow .full statuses screens steps s (.on i false)) (n : Nat) :
    s.after ((List.replicate (2 * n) Response.reject).map .respond) = s := by
  induction n with
  | zero => rfl
  | succ n ih =>
    rw [Nat.mul_succ, List.replicate_succ, List.replicate_succ, List.map_cons, List.map_cons,
      after_cons, after_cons, perform, perform, follows.detour]
    exact ih

/-- The only rejection left to confirm ends the flow. -/
theorem Follows.rejectable (follows : Follows flow style statuses screens steps s cursor)
    (busy : s.phase ≠ .idle) :
    ∃ (more : List Response) (response : Response),
      ((s.after (more.map .respond)).update response).result = .ok (.exit false) := by
  cases follows with
  | waits place waits asked =>
    have follows : Follows flow style statuses screens steps s (.on _ false) :=
      .waits place waits asked
    have first := follows.update .reject
    cases style with
    | light => exact ⟨[], .reject, congrArg Prod.fst first.1⟩
    | full => exact ⟨[.reject], .accept, congrArg Prod.fst (first.2.update .accept).1⟩
  | asks full place waits asked =>
    have follows := Follows.asks full place waits asked
    exact ⟨[], .accept, congrArg Prod.fst (follows.update .accept).1⟩
  | done idle => contradiction

theorem Follows.rejected (follows : Follows flow style statuses screens steps s cursor)
    {response : Response} (rejected : (s.update response).result = .ok (.exit false)) :
    (s.update response).session = {} := by
  have answered := congrArg Prod.fst (follows.update response).1
  rw [show (s.update response).seen.1 = .ok (.exit false) from rejected] at answered
  cases follows with
  | @waits s i screen rest place waits asked =>
    cases response with
    | accept =>
      rw [Cursor.answer] at answered
      cases ahead : screens[i + 1]? <;> rw [ahead] at answered <;> cases answered
    | reject =>
      cases style with
      | light =>
        rw [update_reject waits.phase_ne_idle, Session.reject, if_neg (by simp [waits.calm]),
          waits.style]
        exact session_finish s false
      | full => cases answered
  | @asks s i screen rest full place waits asked =>
    have busy : ({ s with rejecting := true } : Session).phase ≠ .idle := waits.phase_ne_idle
    cases response with
    | accept =>
      rw [update_accept busy, Session.accept, if_pos rfl]
      exact session_finish _ false
    | reject => cases answered
  | done idle => cases answered

theorem Follows.not_exit (follows : Follows flow style statuses screens steps s .done)
    (past : List Response) (response : Response) :
    ((s.after (past.map .respond)).update response).result = .ok .idle := by
  have idle := follows.idle_iff.mpr rfl
  rw [after_responses_of_idle idle, update_of_idle idle]

theorem accepted_accept (showing : Option Screen) (later : List Response) :
    s.accepted showing (.accept :: later) =
      showing.toList ++
        (s.update .accept).session.accepted ((s.update .accept).showing showing) later := rfl

theorem accepted_reject (showing : Option Screen) (later : List Response) :
    s.accepted showing (.reject :: later) =
      (s.update .reject).session.accepted ((s.update .reject).showing showing) later := rfl

theorem showing_of_seen {reply : Reply} {result : Except Fault Answer} {screen : Screen}
    (seen : reply.seen = (result, [.screen screen])) (showing : Option Screen) :
    reply.showing showing = some screen := by
  have rendered : reply.rendered = [.screen screen] := congrArg Prod.snd seen
  rw [Reply.showing, rendered]
  rfl

theorem Walks.showing {reply : Reply} (walks : Walks flow style statuses screens reply)
    (pending : reply.result = .ok .pending) : reply.showing none = screens[0]? := by
  cases walks with
  | shows seen waits => exact showing_of_seen seen none
  | exits seen idle =>
    rw [show reply.result = .ok (.exit true) from congrArg Prod.fst seen] at pending
    cases pending

theorem Follows.getElem? {i : Nat} {rejecting : Bool}
    (follows : Follows flow style statuses screens steps s (.on i rejecting)) :
    ∃ screen, screens[i]? = some screen := by
  cases follows with
  | waits place waits asked => exact ⟨_, by rw [← List.head?_drop, place, List.head?_cons]⟩
  | asks full place waits asked => exact ⟨_, by rw [← List.head?_drop, place, List.head?_cons]⟩

/-- From a screen on, an approval takes the acceptance of every screen left, each while it shows. -/
theorem Follows.accepted {i : Nat} {rejecting : Bool} {showing : Option Screen}
    (follows : Follows flow style statuses screens steps s (.on i rejecting))
    (shown : rejecting = false → showing = screens[i]?) (past : List Response)
    (response : Response)
    (approved : ((s.after (past.map .respond)).update response).result = .ok (.exit true)) :
    s.accepted showing (past ++ [response]) = screens.drop i := by
  have unfinished : ∀ i, screens.drop i = screens[i]?.toList ++ screens.drop (i + 1) :=
    fun _ => List.drop_eq_getElem?_toList_append
  -- A detour keeps the index, and the screen is back before the next acceptance can move it.
  induction past generalizing s i rejecting showing steps with
  | nil =>
    have answered := congrArg Prod.fst (follows.update response).1
    rw [show (s.update response).seen.1 = .ok (.exit true) from approved] at answered
    cases rejecting <;> cases response
    case false.accept =>
      rw [Cursor.answer] at answered
      cases ahead : screens[i + 1]? with
      | some next =>
        rw [ahead] at answered
        cases answered
      | none =>
        rw [List.nil_append, accepted_accept, shown rfl, unfinished,
          List.drop_eq_nil_of_le (List.getElem?_eq_none_iff.mp ahead)]
        rfl
    case false.reject => cases style <;> cases answered
    case true.accept => cases answered
    case true.reject => cases answered
  | cons first past ih =>
    obtain ⟨seen, moved⟩ := follows.update first
    have exited : ∀ {steps}, ¬ Follows flow style statuses screens steps
        (s.update first).session .done := by
      intro steps done
      rw [List.map_cons, after_cons, perform, done.not_exit] at approved
      cases approved
    cases rejecting <;> cases first
    case false.accept =>
      rw [Cursor.next] at moved
      by_cases inside : i + 1 < screens.length
      · rw [if_pos inside] at moved
        rw [Cursor.answer, List.getElem?_eq_getElem inside] at seen
        have next : (s.update .accept).showing showing = screens[i + 1]? := by
          rw [showing_of_seen seen, List.getElem?_eq_getElem inside]
        have later := ih moved (fun _ => next) approved
        rw [List.cons_append, accepted_accept, later, shown rfl, ← unfinished]
      · rw [if_neg inside] at moved
        exact absurd moved exited
    case false.reject =>
      cases style with
      | light => exact absurd moved exited
      | full =>
        rw [List.cons_append, accepted_reject]
        exact ih moved (fun calm => Bool.noConfusion calm) approved
    case true.accept => exact absurd moved exited
    case true.reject =>
      obtain ⟨screen, here⟩ := follows.getElem?
      rw [Cursor.answer, here] at seen
      rw [List.cons_append, accepted_reject]
      apply ih moved ?_ approved
      intro calm
      rw [showing_of_seen seen, here]

theorem follows_start (calm : s.rejecting = false) (idle : s.phase = .idle)
    (sound : flow.offers flow.step = flow.items.map .ok)
    (pending : (s.start (some flow) style).result = .ok .pending) :
    Follows flow style (Item.lastStatuses none flow.items) (Layout.screens style flow.items)
      (s.start (some flow) style).steps (s.start (some flow) style).session (.on 0 false) := by
  have walks := walks_start calm idle sound style
  have kept : (s.start (some flow) style).session.display.statuses =
      (flow.confirmed (s.start (some flow) style).steps).or none := by
    rw [start_some_of_idle idle] at pending ⊢
    exact statuses_step rfl pending
  generalize s.start (some flow) style = reply at pending walks kept
  generalize Layout.screens style flow.items = screens at walks
  cases walks with
  | shows seen waits => exact .waits rfl waits (by rw [kept, Option.or_none])
  | exits seen idle =>
    have exits : reply.result = .ok (.exit true) := congrArg Prod.fst seen
    rw [exits] at pending
    cases pending

theorem after_dialogue_append (past more : List Response) :
    s.after (dialogue flow style (past ++ more)) =
      (s.after (dialogue flow style past)).after (more.map .respond) := by
  rw [dialogue, List.map_append, ← List.cons_append, after_append]
  rfl

/-- A flow that starts pending follows the cursor over the screens of its layout, whatever the
responses. -/
theorem follows_cursor {policy : Policy} {content : Flow.Content} (reachable : s.Reachable)
    (built : Flow.of policy content = .ok flow) (filled : content.address? ≠ some [])
    (pending : (s.start (some flow) style).result = .ok .pending) :
    s.FollowsCursor flow style (Layout.screens style flow.items) := by
  have sound := Flow.offers_eq_map_items built filled
  have idle : s.phase = .idle := idle_of_start pending
  have calm : s.rejecting = false := by rw [reachable.tidy.eq_of_idle idle]
  have follows := follows_start calm idle sound pending
  have walks := walks_start calm idle sound style
  constructor
  case accepting =>
    rw [dialogue, List.map_replicate]
    exact walks.run
  case answers =>
    intro past response
    exact ((follows.run past).update response).1
  case idle =>
    intro past
    exact (follows.run past).idle_iff
  case goesBack =>
    intro past i n full there
    subst style
    have standing := follows.run past
    rw [show past.foldl _ _ = Cursor.on i false from there] at standing
    rw [after_dialogue_append]
    exact standing.detours n
  case rejects =>
    intro past
    have answered := congrArg Prod.fst ((follows.run past).update .reject).1
    exact fun approved => Cursor.answer_reject_ne _ (answered.symm.trans approved)
  case rejected =>
    intro past response rejected
    exact (follows.run past).rejected rejected
  case approves =>
    intro past response approved started
    exact follows.accepted (fun _ => walks.showing pending) past response approved
  case rejectable =>
    intro past busy
    obtain ⟨more, response, rejected⟩ := (follows.run past).rejectable busy
    refine ⟨more, response, ?_⟩
    rw [after_dialogue_append]
    exact rejected

/-- An export of a public key under the full style: a prompt, a page and a confirmation. -/
theorem follows_cursor_of_keyExport :
    let flow : Flow :=
      ⟨.keyExport ⟨[0x8000002c, 0x80000717, 0x80000000], by decide⟩, .prompt, .ofScene 1, rfl⟩
    Session.FollowsCursor {} flow .full (Layout.screens .full flow.items) := by
  intro flow
  have built : Flow.of .prompt flow.content = .ok flow := rfl
  have filled : flow.content.address? ≠ some [] := by decide
  have sound := Flow.offers_eq_map_items built filled
  have some := @Layout.screens_ne_nil .full _ (Flow.items_ne_nil built rfl sound)
  exact follows_cursor .fresh built filled ((walks_start rfl rfl sound .full).pending some)

end Session

end WalletConsent
