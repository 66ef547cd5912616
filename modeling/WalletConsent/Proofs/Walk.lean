import WalletConsent.Proofs.Replies

/-!
A session that walks through a flow. While it waits, the screen that shows is followed by the rest
of the layout, part of it deferred, part gathered in the pager, part not yet offered; accepting
shows the next screen of that rest, and exits when there is none. Accepting all the way therefore
shows the layout of the flow's items, screen by screen.
-/

set_option autoImplicit false

namespace WalletConsent

/-- What a reply answers and renders. -/
def Reply.seen (r : Reply) : Except Fault Answer × List Rendering := (r.result, r.rendered)

def Rendering.screen? : Rendering → Option Screen
  | .screen s => some s
  | .status .. => none

/-- The screens that a reply renders. -/
def Reply.screens (r : Reply) : List Screen := r.rendered.filterMap Rendering.screen?

namespace Statuses

/-- The status that follows an approval, if a confirmation was asked for. -/
def approval (statuses : Option Statuses) : List Rendering :=
  (statuses.map fun statuses => .status statuses.approved true).toList

/-- The status that follows a rejection, that of an action before any confirmation. -/
def rejection (statuses : Option Statuses) : List Rendering :=
  [.status (statuses.getD .action).rejected false]

theorem filterMap_screen?_approval (statuses : Option Statuses) :
    (approval statuses).filterMap Rendering.screen? = [] := by
  cases statuses <;> rfl

theorem approval_ne_nil {statuses : Option Statuses} :
    approval statuses ≠ [] ↔ statuses.isSome := by
  cases statuses <;> simp [approval]

end Statuses

namespace Session

theorem seen_finish_true (s : Session) :
    (s.finish true).seen = (.ok (.exit true), Statuses.approval s.display.statuses) := by
  unfold Reply.seen finish Display.status
  cases asked : s.display.statuses <;> rfl

theorem seen_finish_false (s : Session) :
    (s.finish false).seen = (.ok (.exit false), Statuses.rejection s.display.statuses) := rfl

/-- Waiting at a screen of a flow with the rest of its screens to come; `statuses` are those in
force once everything has been shown. -/
structure Waits (s : Session) (flow : Flow) (style : ConfirmStyle) (statuses : Option Statuses)
    (screen : Screen) (rest : List Screen) : Prop where
  calm : s.rejecting = false
  style : s.display.style = style
  current : s.display.current = some screen
  behind : s.display.deferred.isSome → s.display.pager.opened = []
  left : ∃ step items,
    s.flow = some { flow with step } ∧ flow.offers step = items.map .ok ∧
      s.display.upcoming items = rest ∧ Item.lastStatuses s.display.statuses items = statuses ∧
      (s.phase = .running ∨ s.phase = .finishing ∧ items = [] ∧ rest = [])

/-- A reply that shows the next of the screens to come, or exits approved when there is none. -/
inductive Walks (flow : Flow) (style : ConfirmStyle) (statuses : Option Statuses) :
    List Screen → Reply → Prop
  | shows {reply : Reply} {screen : Screen} {rest : List Screen}
      (seen : reply.seen = (.ok .pending, [.screen screen]))
      (waits : reply.session.Waits flow style statuses screen rest) :
      Walks flow style statuses (screen :: rest) reply
  | exits {reply : Reply}
      (seen : reply.seen = (.ok (.exit true), Statuses.approval statuses))
      (idle : reply.session.phase = .idle) :
      Walks flow style statuses [] reply

variable {s : Session} {flow : Flow} {step : Flow.Step}

/-- The end of a flow shows the facts left over, or exits at once. -/
theorem walks_complete (calm : s.rejecting = false) (active : s.flow = some { flow with step })
    (free : s.display.deferred = none) (left : flow.offers step = []) :
    Walks flow s.display.style s.display.statuses (Layout.close s.display.pager.opened)
      s.complete := by
  by_cases empty : s.display.pager.opened = []
  · rw [complete_of_opened_eq_nil empty, empty]
    exact .exits (seen_finish_true _) (phase_finish _ true)
  · rw [complete_of_opened_ne_nil empty, Layout.close_of_ne_nil empty]
    refine .shows rfl ⟨calm, rfl, rfl, fun _ => rfl, step, [], active, left, ?_, rfl, ?_⟩
    · simp [Display.upcoming, Layout.extend, free]
    · exact .inr ⟨rfl, rfl, rfl⟩

/-- Going on shows the next of the screens to come. -/
theorem walks_step {items : List Item} (calm : s.rejecting = false)
    (active : s.flow = some { flow with step }) (running : s.phase = .running)
    (free : s.display.deferred = none) (sound : flow.offers step = items.map .ok) :
    Walks flow s.display.style (Item.lastStatuses s.display.statuses items)
      (s.display.upcoming items) s.step := by
  have plays := Display.plays free items
  have drives := Flow.drive_plays { flow with step } step s.display
  dsimp only at drives
  rw [show ({ flow with step } : Flow).offers step = items.map .ok from sound] at drives
  rw [← drives] at plays
  unfold Session.step
  simp only [active, Flow.run]
  generalize drive _ step s.display = driven at plays
  obtain ⟨result, step', display, rendered, handled⟩ := driven
  dsimp only at plays ⊢
  generalize left : ({ flow with step } : Flow).offers step' = offers at plays
  cases plays with
  | completes gathers =>
    have rest : s.display.upcoming items = Layout.close display.pager.opened := by
      rw [gathers.upcoming, Display.upcoming, gathers.free]
      rfl
    have ends : Walks flow display.style display.statuses _ _ := walks_complete
      (s := { s with flow := some { flow with step := step' }, display }) calm rfl gathers.free left
    rw [← gathers.statuses, ← gathers.style, rest]
    generalize Layout.close display.pager.opened = screens at ends
    cases ends with
    | shows seen waits => exact .shows seen waits
    | exits seen idle => exact .exits seen idle
  | suspends brings =>
    rw [brings.upcoming]
    exact .shows rfl ⟨calm, brings.style, brings.current, brings.behind, step', _, rfl, left, rfl,
      brings.statuses, .inl running⟩

theorem walks_start (calm : s.rejecting = false) (idle : s.phase = .idle)
    (sound : flow.offers flow.step = flow.items.map .ok) (style : ConfirmStyle) :
    Walks flow style (Item.lastStatuses none flow.items) (Layout.screens style flow.items)
      (s.start (some flow) style) := by
  rw [start_some_of_idle idle]
  exact walks_step (s := { s with phase := .running, flow := some flow, display := { style } })
    calm rfl rfl rfl sound

variable {style : ConfirmStyle} {statuses : Option Statuses} {screen : Screen} {rest : List Screen}

theorem Waits.phase_ne_idle (waits : s.Waits flow style statuses screen rest) :
    s.phase ≠ .idle := by
  rcases waits.left with ⟨step, items, -, -, -, -, running | ⟨finishing, -⟩⟩
  · simp [running]
  · simp [finishing]

/-- Accepting a screen shows the next one, or exits approved behind the last. -/
theorem Waits.walks_accept (waits : s.Waits flow style statuses screen rest) :
    Walks flow style statuses rest s.accept := by
  obtain ⟨step, items, active, sound, upcoming, final, phase⟩ := waits.left
  have calm := waits.calm
  unfold accept Display.release?
  rw [if_neg (by simp [calm])]
  -- What comes next is deferred, or else left to the flow, or there is nothing.
  cases deferred : s.display.deferred with
  | some next =>
    have empty : s.display.pager.opened = [] := waits.behind (by simp [deferred])
    rw [Display.upcoming, deferred] at upcoming
    subst rest
    refine .shows rfl ⟨calm, waits.style, rfl, fun _ => empty, step, items, active, sound, rfl,
      final, ?_⟩
    rcases phase with running | ⟨-, -, none⟩
    · exact .inl running
    · cases none
  | none =>
    dsimp only [Option.map_none]
    rcases phase with running | ⟨finishing, rfl, rfl⟩
    · rw [if_neg (by simp [running]), ← final, ← upcoming, ← waits.style]
      exact walks_step calm active running deferred sound
    · rw [if_pos finishing, ← final]
      exact .exits (seen_finish_true s) (phase_finish s true)

theorem Waits.walks (waits : s.Waits flow style statuses screen rest) :
    Walks flow style statuses rest (s.update .accept) := by
  rw [update_accept waits.phase_ne_idle]
  exact waits.walks_accept

theorem Walks.pending {screens : List Screen} {reply : Reply}
    (walks : Walks flow style statuses screens reply) (some : screens ≠ []) :
    reply.result = .ok .pending := by
  cases walks with
  | shows seen waits => exact congrArg Prod.fst seen
  | exits seen idle => contradiction

/-- Accepting all the way shows the screens to come one by one and then exits approved. -/
theorem Walks.run {screens : List Screen} {reply : Reply}
    (walks : Walks flow style statuses screens reply) :
    reply.seen ::
        (reply.session.run (List.replicate screens.length (.respond .accept))).map Reply.seen =
      screens.map (fun screen => (.ok .pending, [.screen screen])) ++
        [(.ok (.exit true), Statuses.approval statuses)] := by
  induction screens generalizing reply with
  | nil =>
    cases walks with
    | exits seen idle => simp [seen, Session.run]
  | cons screen screens ih =>
    cases walks with
    | shows seen waits =>
      rw [seen, List.length_cons, List.replicate_succ, Session.run, List.map_cons, List.map_cons,
        List.cons_append, perform, ih waits.walks]

theorem Walks.results {screens : List Screen} {reply : Reply}
    (walks : Walks flow style statuses screens reply) :
    (reply ::
        reply.session.run (List.replicate screens.length (.respond .accept))).map Reply.result =
      List.replicate screens.length (.ok .pending) ++ [.ok (.exit true)] := by
  have results := congrArg (List.map Prod.fst) walks.run
  rw [← List.map_cons, List.map_map, List.map_append, List.map_map] at results
  refine Eq.trans results ?_
  rw [← List.map_const']
  rfl

/-- Accepting all the way ends in the approval. -/
theorem Walks.approves {screens : List Screen} {reply : Reply}
    (walks : Walks flow style statuses screens reply) :
    (reply :: reply.session.run (List.replicate screens.length (.respond .accept))).getLast?.map
      Reply.result = some (.ok (.exit true)) := by
  rw [← List.getLast?_map, walks.results, List.getLast?_concat]

theorem Walks.screens {screens : List Screen} {reply : Reply}
    (walks : Walks flow style statuses screens reply) :
    (reply ::
        reply.session.run (List.replicate screens.length (.respond .accept))).flatMap
      Reply.screens = screens := by
  have shown (replies : List Reply) : replies.flatMap Reply.screens =
      (replies.map Reply.seen).flatMap fun seen => seen.2.filterMap Rendering.screen? := by
    rw [List.flatMap_map]
    rfl
  rw [shown, List.map_cons, walks.run, List.flatMap_append, List.flatMap_map, List.flatMap_cons,
    Statuses.filterMap_screen?_approval]
  simp [Rendering.screen?]

/-- Accepting all the way shows the layout of a flow's items, one screen a call, and then exits
approved. The items are those of the flow's scenes from its entry on, in order. -/
theorem start_accept_shows_layout {policy : Policy} {content : Flow.Content}
    (reachable : s.Reachable) (idle : s.phase = .idle) (built : Flow.of policy content = .ok flow)
    (interactive : policy.isInteractive = true) (filled : content.address? ≠ some [])
    (style : ConfirmStyle) :
    let screens := Layout.screens style flow.items
    let approval := Statuses.approval (Item.lastStatuses none flow.items)
    (∃ entry, content.entry? policy = some entry ∧
      flow.items.map .ok = Flow.sceneOffers ((content.scenes policy).drop entry)) ∧
    (s.run (.start (some flow) style :: List.replicate screens.length (.respond .accept))).map
        Reply.seen =
      screens.map (fun screen => (.ok .pending, [.screen screen])) ++
        [(.ok (.exit true), approval)] ∧
    screens ≠ [] ∧ screens.length ≤ 7 ∧
    (approval ≠ [] ↔
      ∃ title subtitle statuses, .confirm title subtitle statuses ∈ flow.items) := by
  intro screens approval
  have sound := Flow.offers_eq_map_items built filled
  have some := Flow.items_ne_nil built interactive sound
  have calm : s.rejecting = false := by rw [reachable.tidy.eq_of_idle idle]
  refine ⟨?_, (walks_start calm idle sound style).run, Layout.screens_ne_nil some, ?_, ?_⟩
  · rw [← sound]
    exact Flow.offers_eq_sceneOffers built
  · have few := Layout.length_extend_le style [] flow.items
    exact Nat.le_trans few (by simpa using Flow.length_items_le built)
  · rw [Statuses.approval_ne_nil, Item.isSome_lastStatuses]
    simp

/-- The flow with the most to show: an unusual change output with a datum and an address in two
pieces. -/
theorem start_accept_shows_layout_of_change :
    let content : Flow.Content :=
      .changeOutput 1000000 ⟨[0x8000002c, 0x80000717, 0x80000000, 1, 0], by decide⟩ none
        (some (List.replicate 70 0)) true
    let flow : Flow := ⟨content, .warn, .ofScene 0, rfl⟩
    let screens := Layout.screens .light flow.items
    (Session.run {}
        (.start (some flow) .light :: List.replicate screens.length (.respond .accept))).map
        Reply.seen =
      screens.map (fun screen => (.ok .pending, [.screen screen])) ++
        [(.ok (.exit true), Statuses.approval (Item.lastStatuses none flow.items))] := by
  intro content flow screens
  have built : Flow.of .warn content = .ok flow := rfl
  exact (start_accept_shows_layout .fresh rfl built rfl (by decide) .light).2.1

end Session

end WalletConsent
