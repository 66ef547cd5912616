import WalletConsent.Proofs.Cursor
import WalletConsent.Proofs.Handlers
import WalletConsent.Proofs.Itinerary

/-!
A flow handles each of its steps once at most, whatever the user responds and however often the
question about a rejection is asked. What a session has still to handle are the steps ahead of its
flow. Going on uses up a front of them, every other response none, and what is approved has used
up them all (`Session.uses_update`); so the steps handled over a whole dialogue are a front of the
steps that were ahead at its start, with the response as the last of those.
-/

set_option autoImplicit false

namespace WalletConsent

namespace Flow

variable {f : Flow} {s : Step}

theorem place_le_of_mem_ahead {t : Step} (among : t ∈ f.ahead s) :
    Ranked.place s ≤ Ranked.place t := by
  induction s using ahead.induct f with
  | case1 s last =>
    rw [ahead_of_next?_eq_none last] at among
    cases List.mem_singleton.mp among
    exact Nat.le_refl _
  | case2 s next following ih =>
    rw [ahead_of_next? following] at among
    rcases List.mem_cons.mp among with rfl | among
    · exact Nat.le_refl _
    · exact Nat.le_trans (Nat.le_of_lt (place_lt_of_next? following)) (ih among)

/-- The steps ahead are in order. -/
theorem pairwise_ahead (f : Flow) (s : Step) :
    (f.ahead s).Pairwise fun t t' => Ranked.place t < Ranked.place t' := by
  induction s using ahead.induct f with
  | case1 s last =>
    rw [ahead_of_next?_eq_none last]
    exact List.pairwise_singleton _ _
  | case2 s next following ih =>
    rw [ahead_of_next? following]
    apply List.Pairwise.cons _ ih
    intro t among
    exact Nat.lt_of_lt_of_le (place_lt_of_next? following) (place_le_of_mem_ahead among)

/-- Among the steps ahead a flow responds at the last, and nowhere before. -/
theorem exists_ahead_eq_concat (f : Flow) (s : Step) :
    ∃ front last, f.ahead s = front ++ [last] ∧ f.kind.stageAt last = .respond ∧
      ∀ t ∈ front, f.kind.stageAt t ≠ .respond := by
  induction s using ahead.induct f with
  | case1 s last =>
    refine ⟨[], s, ahead_of_next?_eq_none last, stageAt_eq_respond_iff.mpr last, ?_⟩
    intro t among
    cases among
  | case2 s next following ih =>
    obtain ⟨front, last, split, responds, others⟩ := ih
    have goes : f.kind.stageAt s ≠ .respond := by
      intro responds
      cases following.symm.trans (stageAt_eq_respond_iff.mp responds)
    refine ⟨s :: front, last, ?_, responds, List.forall_mem_cons.mpr ⟨goes, others⟩⟩
    rw [ahead_of_next? following, split]
    rfl

end Flow

namespace Session

/-- What a reply has used up of the steps ahead. -/
inductive Uses (ahead : List Flow.Step) (reply : Reply) : Prop
  | stops (idle : reply.session.phase = .idle) (unapproved : reply.result ≠ .ok (.exit true))
      (front : reply.steps <+: ahead)
  | approves (idle : reply.session.phase = .idle) (all : reply.steps = ahead)
  | goesOn (unapproved : reply.result ≠ .ok (.exit true))
      (split : reply.steps ++ reply.session.ahead = ahead)

variable {s : Session} {flow : Flow} {screen : Screen} {ahead : List Flow.Step} {reply : Reply}

/-- Behind the last step a flow exits, or waits for its last page to be accepted. -/
theorem uses_complete (result : reply.result = s.complete.result)
    (session : reply.session = s.complete.session) (all : reply.steps = ahead) :
    Uses ahead reply := by
  by_cases empty : s.display.pager.opened = []
  · apply Uses.approves _ all
    rw [session, complete_of_opened_eq_nil empty]
    exact phase_finish _ true
  · apply Uses.goesOn
    · rw [result, complete_of_opened_ne_nil empty]
      simp
    · rw [session, ahead_complete, List.append_nil, all]

theorem uses_step (active : s.flow = some flow) (running : s.phase = .running) :
    Uses s.ahead s.step := by
  have ahead : s.ahead = flow.ahead flow.step := ahead_of_running running active
  rw [ahead]
  cases covers_step active with
  | fails result idle front =>
    apply Uses.stops idle
    · simp [result]
    · exact front
  | suspends result session split =>
    apply Uses.goesOn
    · simp [result]
    · rw [session, ← split]
      exact congrArg (s.step.steps ++ ·) (ahead_of_running running rfl)
  | completes done result session all => exact uses_complete result session all

/-- A response that ends the flow without going on. -/
theorem uses_finish_false (s : Session) (ahead : List Flow.Step) :
    Uses ahead (s.finish false) := by
  apply Uses.stops (phase_finish s false)
  · simp [finish]
  · exact List.nil_prefix

theorem uses_accept (shows : s.Shows screen) : Uses s.ahead s.accept := by
  obtain ⟨flow, active⟩ := Option.isSome_iff_exists.mp shows.active
  unfold accept Display.release?
  by_cases rejecting : s.rejecting = true
  · rw [if_pos rejecting]
    exact s.uses_finish_false _
  · rw [if_neg rejecting]
    cases deferred : s.display.deferred with
    | some next =>
      apply Uses.goesOn
      · simp
      · rfl
    | none =>
      dsimp only [Option.map_none]
      by_cases finishing : s.phase = .finishing
      · have stopped : s.phase ≠ .running := by simp [finishing]
        rw [if_pos finishing]
        exact .approves (phase_finish s true) (ahead_of_not_running stopped).symm
      · rw [if_neg finishing]
        exact uses_step active (shows.running finishing)

theorem uses_reject (s : Session) : Uses s.ahead s.reject := by
  unfold reject
  by_cases rejecting : s.rejecting = true
  · rw [if_pos rejecting]
    apply Uses.goesOn
    · simp
    · rfl
  · rw [if_neg rejecting]
    cases s.display.style with
    | light => exact s.uses_finish_false _
    | full =>
      apply Uses.goesOn
      · simp
      · rfl

theorem uses_update (tidy : s.Tidy) (response : Response) :
    Uses s.ahead (s.update response) := by
  by_cases idle : s.phase = .idle
  · rw [update_of_idle idle]
    apply Uses.stops idle
    · simp
    · exact List.nil_prefix
  · obtain ⟨screen, shows⟩ := tidy.exists_shows idle
    cases response with
    | accept =>
      rw [update_accept idle]
      exact uses_accept shows
    | reject =>
      rw [update_reject idle]
      exact s.uses_reject

theorem uses_start (s : Session) (flow : Flow) (style : ConfirmStyle) :
    Uses (flow.ahead flow.step) (s.start (some flow) style) := by
  by_cases idle : s.phase = .idle
  · have uses := @uses_step { s with phase := .running, flow := some flow, display := { style } }
      flow rfl rfl
    rw [ahead_of_running rfl rfl] at uses
    rw [start_some_of_idle idle]
    exact uses
  · rw [start_of_busy idle]
    apply Uses.stops rfl
    · simp [fail]
    · exact List.nil_prefix

/-- An idle session ignores every response. -/
theorem ignored_of_idle (idle : s.phase = .idle) (responses : List Response) :
    ∀ r ∈ s.run (responses.map .respond), r.result = .ok .idle ∧ r.steps = [] := by
  induction responses with
  | nil => exact fun r among => nomatch among
  | cons response responses ih =>
    rw [List.map_cons, run, perform, update_of_idle idle]
    exact List.forall_mem_cons.mpr ⟨⟨rfl, rfl⟩, ih⟩

/-- Behind an idle session nothing is used up or approved. -/
theorem replies_of_idle (idle : reply.session.phase = .idle) (responses : List Response) :
    let replies := reply :: reply.session.run (responses.map .respond)
    replies.flatMap Reply.steps = reply.steps ∧
      ((∃ r ∈ replies, r.result = .ok (.exit true)) → reply.result = .ok (.exit true)) := by
  have ignored := ignored_of_idle idle responses
  constructor
  · have rest := List.flatMap_eq_nil_iff.mpr fun r among => (ignored r among).2
    rw [List.flatMap_cons, rest, List.append_nil]
  · rintro ⟨r, among, approved⟩
    rcases List.mem_cons.mp among with rfl | later
    · exact approved
    · cases (ignored r later).1.symm.trans approved

/-- Whatever comes of the responses, they use up a front of the steps ahead, and all of them if the
flow is approved. -/
theorem Uses.run {ahead : List Flow.Step} {reply : Reply} (uses : Uses ahead reply)
    (tidy : reply.session.Tidy) (responses : List Response) :
    let replies := reply :: reply.session.run (responses.map .respond)
    replies.flatMap Reply.steps <+: ahead ∧
      ((∃ r ∈ replies, r.result = .ok (.exit true)) → replies.flatMap Reply.steps = ahead) := by
  cases uses with
  | stops idle unapproved front =>
    obtain ⟨steps, approving⟩ := replies_of_idle idle responses
    dsimp only
    rw [steps]
    exact ⟨front, fun approved => absurd (approving approved) unapproved⟩
  | approves idle all =>
    obtain ⟨steps, -⟩ := replies_of_idle idle responses
    dsimp only
    rw [steps, all]
    exact ⟨List.prefix_rfl, fun _ => rfl⟩
  | goesOn unapproved split =>
    cases responses with
    | nil =>
      simp only [List.map_nil, Session.run, List.flatMap_singleton, List.mem_singleton]
      refine ⟨⟨_, split⟩, ?_⟩
      rintro ⟨r, rfl, approved⟩
      contradiction
    | cons response responses =>
      have tidy' : (reply.session.update response).session.Tidy :=
        tidy_perform tidy (.respond response)
      obtain ⟨front, approving⟩ := Uses.run (uses_update tidy response) tidy' responses
      dsimp only
      rw [← split, List.map_cons, Session.run, List.flatMap_cons]
      constructor
      · exact (List.prefix_append_right_inj reply.steps).mpr front
      · rintro ⟨r, among, approved⟩
        rcases List.mem_cons.mp among with rfl | later
        · contradiction
        · exact congrArg (reply.steps ++ ·) (approving ⟨r, later, approved⟩)

/-- A response handles steps only if it goes on with the flow: none that ask about a rejection or go
back from there, bring out the deferred screen or dismiss the last page. -/
theorem steps_update_ne_nil_iff (tidy : s.Tidy) (response : Response) :
    (s.update response).steps ≠ [] ↔
      response = .accept ∧ s.phase = .running ∧ s.rejecting = false ∧
        s.display.deferred = none := by
  by_cases idle : s.phase = .idle
  · rw [update_of_idle idle]
    simp [Reply.steps, idle]
  · obtain ⟨screen, shows⟩ := tidy.exists_shows idle
    obtain ⟨flow, active⟩ := Option.isSome_iff_exists.mp shows.active
    cases response with
    | reject =>
      rw [update_reject idle]
      unfold reject
      cases s.rejecting <;> cases s.display.style <;> simp [Reply.steps, finish]
    | accept =>
      rw [update_accept idle]
      unfold accept Display.release?
      cases rejecting : s.rejecting with
      | true => simp [Reply.steps, finish]
      | false =>
        cases deferred : s.display.deferred with
        | some next => simp [Reply.steps]
        | none =>
          cases phase : s.phase with
          | idle => contradiction
          | finishing => simp [Reply.steps, finish]
          | running =>
            have begun := (rounds_drive flow.handle flow.step s.display).mem_handled
            have handles := List.ne_nil_of_mem begun
            simp [Reply.steps, step, Flow.run, active, handles]

/-- The steps handled from the start of a flow on. -/
def handledIn (s : Session) (flow : Flow) (style : ConfirmStyle) (past : List Response) :
    List Flow.Step :=
  (s.run (dialogue flow style past)).flatMap Reply.steps

/-- A flow started on a session and carried on by responses, whatever they are. -/
structure HandlesOnce (s : Session) (flow : Flow) (style : ConfirmStyle) : Prop where
  increases (past : List Response) :
    (s.handledIn flow style past).Pairwise fun t t' => Ranked.place t < Ranked.place t'
  /-- No step is left out: the steps handled are the first of those ahead. -/
  front (past : List Response) : s.handledIn flow style past <+: flow.ahead flow.step
  /-- Steps are handled where the user accepts a screen with none deferred behind it, before the
  flow is at its last page, and nowhere else. -/
  handles (past : List Response) (response : Response) :
    let s' := s.after (dialogue flow style past)
    (s'.update response).steps ≠ [] ↔
      response = .accept ∧ s'.phase = .running ∧ s'.rejecting = false ∧
        s'.display.deferred = none
  responds (past : List Response) :
    (s.handledIn flow style past).countP (fun t => flow.kind.stageAt t = .respond) ≤ 1
  /-- Where the flow has been approved, the response was the last step handled. -/
  approves (past : List Response)
      (approved : ∃ r ∈ s.run (dialogue flow style past), r.result = .ok (.exit true)) :
    ∃ earlier last, s.handledIn flow style past = earlier ++ [last] ∧
      flow.kind.stageAt last = .respond

/-- Every flow handles each of its steps once at most, on whatever session it is started. -/
theorem handles_once (calls : List Call) (flow : Flow) (style : ConfirmStyle) :
    (Session.after {} calls).HandlesOnce flow style := by
  have reachable := Reachable.fresh.after calls
  generalize Session.after {} calls = s at reachable
  have started : (s.start (some flow) style).session.Tidy :=
    (reachable.call (.start (some flow) style)).tidy
  have used := fun past => (s.uses_start flow style).run started past
  obtain ⟨earlier, last, ahead, responds, others⟩ := flow.exists_ahead_eq_concat flow.step
  constructor
  case increases => exact fun past => (flow.pairwise_ahead flow.step).sublist (used past).1.sublist
  case front => exact fun past => (used past).1
  case handles =>
    intro past response
    exact steps_update_ne_nil_iff (reachable.after _).tidy response
  case responds =>
    intro past
    have none : earlier.countP (fun t => flow.kind.stageAt t = .respond) = 0 := by
      simpa [List.countP_eq_zero] using others
    have one : (flow.ahead flow.step).countP (fun t => flow.kind.stageAt t = .respond) = 1 := by
      rw [ahead, List.countP_append, none, List.countP_singleton]
      simp [responds]
    rw [← one]
    exact (used past).1.sublist.countP_le
  case approves =>
    intro past approved
    refine ⟨earlier, last, ?_, responds⟩
    rw [← ahead]
    exact (used past).2 approved

end Session

end WalletConsent
