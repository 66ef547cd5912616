import WalletConsent.Proofs.AddressPieces
import WalletConsent.Proofs.Dialogue

/-!
What the user has seen by the time a request is approved. A request is approved at once, or by the
last of the responses to it; then every screen of its flow has been accepted while it showed, and so
has been rendered. Nothing else has, but for the question about a rejection. A flow that offers what
the display refuses never gets so far.
-/

set_option autoImplicit false

namespace WalletConsent

theorem Reply.rendered_of_showing {reply : Reply} {before : Option Screen} {screen : Screen}
    (shown : reply.showing before = some screen) :
    .screen screen ∈ reply.rendered ∨ before = some screen := by
  rw [showing, Option.or_eq_some_iff] at shown
  rcases shown with rendered | ⟨-, earlier⟩
  · left
    obtain ⟨rendering, among, screen'⟩ := List.mem_filterMap.mp (List.mem_of_getLast? rendered)
    cases rendering with
    | screen s =>
      cases screen'
      exact among
    | status => cases screen'
  · exact .inr earlier

theorem Reply.mem_screens_iff {reply : Reply} {screen : Screen} :
    screen ∈ reply.screens ↔ .screen screen ∈ reply.rendered := by
  constructor
  · intro among
    obtain ⟨rendering, rendered, same⟩ := List.mem_filterMap.mp among
    cases rendering with
    | screen s =>
      cases same
      exact rendered
    | status => cases same
  · intro rendered
    exact List.mem_filterMap.mpr ⟨_, rendered, rfl⟩

/-- Playing offers does not get past one that is refused. -/
theorem Display.play_refused {d : Display} {offers : List (Except Fault Item)} {fault : Fault}
    (refused : .error fault ∈ offers) :
    (∃ fault', (d.play offers).1.result = .error fault') ∨
      (d.play offers).1.result = .ok .suspended ∧ .error fault ∈ (d.play offers).2 := by
  induction offers generalizing d with
  | nil => cases refused
  | cons offer offers ih =>
    rw [play]
    cases offering : (d.offer offer).result with
    | error fault' => exact .inl ⟨fault', rfl⟩
    | ok shown =>
      have later : .error fault ∈ offers := by
        rcases List.mem_cons.mp refused with rfl | later
        · cases offering
        · exact later
      cases shown with
      | rendered => exact .inr ⟨rfl, later⟩
      | nothing => exact ih later

/-- A response brings a screen of the flow, or the question about a rejection. -/
theorem Cursor.screen_of_mem_answer {style : ConfirmStyle} {screens : List Screen}
    {statuses statuses' : Option Statuses} {response : Response} {screen : Screen}
    (cursor : Cursor)
    (among : .screen screen ∈ (cursor.answer style screens (Statuses.approval statuses)
      (Statuses.rejection statuses') response).2) :
    screen ∈ screens ∨ screen = .choice .rejection := by
  have approval : .screen screen ∉ Statuses.approval statuses := by
    cases statuses <;> simp [Statuses.approval]
  have rejection : .screen screen ∉ Statuses.rejection statuses' := by simp [Statuses.rejection]
  cases cursor with
  | on i rejecting =>
    cases rejecting <;> cases response
    case false.accept =>
      rw [answer] at among
      cases ahead : screens[i + 1]? with
      | some next =>
        rw [ahead] at among
        cases List.mem_singleton.mp among
        exact .inl (List.mem_of_getElem? ahead)
      | none =>
        rw [ahead] at among
        exact absurd among approval
    case false.reject =>
      cases style with
      | light => exact absurd among rejection
      | full =>
        cases List.mem_singleton.mp among
        exact .inr rfl
    case true.accept => exact absurd among rejection
    case true.reject =>
      obtain ⟨screen', here, same⟩ := List.mem_map.mp among
      cases same
      exact .inl (List.mem_of_getElem? (Option.mem_toList.mp here))
  | done => cases among

namespace Session

variable {s : Session}

/-- The replies to a request and to the responses behind it. -/
def consult (s : Session) (check : AddressCheck) (derive : Deriver) (r : Request)
    (style : ConfirmStyle) (responses : List Response) : List Reply :=
  s.run (.request check derive r style :: responses.map .respond)

/-- A screen that is accepted while it shows has been rendered, if it did not show before. -/
theorem rendered_of_accepted {showing : Option Screen} {screen : Screen} {past : List Response}
    {response : Response} (accepted : screen ∈ s.accepted showing (past ++ [response])) :
    showing = some screen ∨
      ∃ reply ∈ s.run (past.map .respond), .screen screen ∈ reply.rendered := by
  induction past generalizing s showing with
  | nil =>
    cases response with
    | accept =>
      rw [List.nil_append, accepted_accept, Session.accepted, List.append_nil] at accepted
      exact .inl (Option.mem_toList.mp accepted)
    | reject => cases accepted
  | cons first past ih =>
    have later (accepted : screen ∈ (s.update first).session.accepted
        ((s.update first).showing showing) (past ++ [response])) : showing = some screen ∨
          ∃ reply ∈ s.run ((first :: past).map .respond), .screen screen ∈ reply.rendered := by
      rcases ih accepted with shown | ⟨reply, among, rendered⟩
      · rcases Reply.rendered_of_showing shown with rendered | shown
        · exact .inr ⟨_, List.mem_cons_self, rendered⟩
        · exact .inl shown
      · exact .inr ⟨reply, List.mem_cons_of_mem _ among, rendered⟩
    cases first with
    | accept =>
      rw [List.cons_append, accepted_accept] at accepted
      rcases List.mem_append.mp accepted with shown | accepted
      · exact .inl (Option.mem_toList.mp shown)
      · exact later accepted
    | reject => exact later accepted

variable {check : AddressCheck} {derive : Deriver} {r : Request} {style : ConfirmStyle}

/-- The replies to a request, to the responses before the last and to the last. -/
theorem consult_concat (past : List Response) (response : Response) :
    s.consult check derive r style (past ++ [response]) =
      s.request check derive r style ::
          (s.request check derive r style).session.run (past.map .respond) ++
        [((s.request check derive r style).session.after (past.map .respond)).update response] := by
  rw [consult, List.map_append, run, List.cons_append]
  exact congrArg _ (run_concat ..)

/-- An approval by a response comes after every screen of the flow. -/
theorem rendered_of_approved (reachable : s.Reachable) (idle : s.phase = .idle)
    (filled : r.address? derive ≠ some [])
    (pending : (s.request check derive r style).result = .ok .pending) {past : List Response}
    {response : Response}
    (approved : (((s.request check derive r style).session.after (past.map .respond)).update
      response).result = .ok (.exit true)) :
    ∃ content flow, r.content? derive = .ok (some content) ∧
      Flow.of (r.policy s.tx check) content = .ok flow ∧
      ∀ screen ∈ Layout.screens style flow.items,
        ∃ reply ∈ (s.consult check derive r style (past ++ [response])).dropLast,
          .screen screen ∈ reply.rendered := by
  obtain ⟨content, flow, collected, built, follows, first⟩ :=
    follows_request reachable idle filled pending
  refine ⟨content, flow, collected, built, fun screen among => ?_⟩
  have accepted := follows.accepted (fun _ => first) past response approved
  rw [List.drop_zero] at accepted
  rw [← accepted] at among
  rw [consult_concat, List.dropLast_concat]
  rcases rendered_of_accepted among with shown | ⟨reply, among, rendered⟩
  · rcases Reply.rendered_of_showing shown with rendered | none
    · exact ⟨_, List.mem_cons_self, rendered⟩
    · cases none
  · exact ⟨reply, List.mem_cons_of_mem _ among, rendered⟩

theorem Follows.screen_of_rendered {flow : Flow} {statuses : Option Statuses}
    {screens : List Screen} {steps : List Flow.Step} {cursor : Cursor}
    (follows : Follows flow style statuses screens steps s cursor) (past : List Response) :
    ∀ reply ∈ s.run (past.map .respond), ∀ screen ∈ reply.screens,
      screen ∈ screens ∨ screen = .choice .rejection := by
  induction past generalizing s steps cursor with
  | nil => exact fun reply none => nomatch none
  | cons response past ih =>
    obtain ⟨seen, further⟩ := follows.update response
    intro reply among screen shown
    rcases List.mem_cons.mp among with rfl | later
    · have rendered := Reply.mem_screens_iff.mp shown
      apply Cursor.screen_of_mem_answer cursor
      rw [← seen]
      exact rendered
    · exact ih further reply later screen shown

/-- Idle, or working on a flow that still offers what the display refuses. -/
inductive Doomed : Session → Prop
  | idle {s : Session} (idle : s.phase = .idle) : Doomed s
  | running {s : Session} {f : Flow} {fault : Fault} (running : s.phase = .running)
      (active : s.flow = some f) (refused : .error fault ∈ f.offers f.step) : Doomed s

/-- A reply that does not approve, nor leads to where a later one can. -/
structure Dooms (reply : Reply) : Prop where
  unapproved : reply.result ≠ .ok (.exit true)
  doomed : reply.session.Doomed

theorem dooms_finish (s : Session) : Dooms (s.finish false) where
  unapproved := by rintro ⟨⟩
  doomed := .idle (phase_finish s false)

theorem dooms_step {f : Flow} {fault : Fault} (running : s.phase = .running)
    (active : s.flow = some f) (refused : .error fault ∈ f.offers f.step) : Dooms s.step := by
  have plays := Flow.drive_plays f f.step s.display
  have stuck := Display.play_refused (d := s.display) refused
  dsimp only at plays
  rw [← plays] at stuck
  unfold Session.step
  simp only [active, Flow.run]
  generalize drive f.handle f.step s.display = driven at stuck
  obtain ⟨result, step', display, rendered, handled⟩ := driven
  rcases stuck with ⟨fault', failed⟩ | ⟨suspended, left⟩
  · dsimp only at failed
    subst failed
    exact ⟨by rintro ⟨⟩, .idle rfl⟩
  · dsimp only at suspended left
    subst suspended
    exact ⟨by rintro ⟨⟩, .running running rfl left⟩

theorem Doomed.dooms_update (doomed : s.Doomed) (response : Response) :
    Dooms (s.update response) := by
  cases doomed with
  | idle idle =>
    rw [update_of_idle idle]
    exact ⟨by rintro ⟨⟩, .idle idle⟩
  | @running f fault running active refused =>
    have busy : s.phase ≠ .idle := by simp [running]
    cases response with
    | accept =>
      rw [update_accept busy]
      unfold accept Display.release?
      by_cases rejecting : s.rejecting = true
      · rw [if_pos rejecting]
        exact dooms_finish s
      · rw [if_neg rejecting]
        cases deferred : s.display.deferred with
        | some next => exact ⟨by rintro ⟨⟩, .running running active refused⟩
        | none =>
          dsimp only [Option.map_none]
          rw [if_neg (by simp [running])]
          exact dooms_step running active refused
    | reject =>
      rw [update_reject busy]
      unfold reject
      by_cases rejecting : s.rejecting = true
      · rw [if_pos rejecting]
        exact ⟨by rintro ⟨⟩, .running running active refused⟩
      · rw [if_neg rejecting]
        cases s.display.style with
        | light => exact dooms_finish s
        | full => exact ⟨by rintro ⟨⟩, .running running active refused⟩

theorem Doomed.unapproved (doomed : s.Doomed) (past : List Response) (response : Response) :
    ((s.after (past.map .respond)).update response).result ≠ .ok (.exit true) := by
  induction past generalizing s with
  | nil => exact (doomed.dooms_update response).unapproved
  | cons first past ih => exact ih (doomed.dooms_update first).doomed

/-- An empty address is never approved. -/
theorem address?_ne_nil_of_approved (reachable : s.Reachable) (idle : s.phase = .idle)
    (pending : (s.request check derive r style).result = .ok .pending) {past : List Response}
    {response : Response}
    (approved : (((s.request check derive r style).session.after (past.map .respond)).update
      response).result = .ok (.exit true)) :
    r.address? derive ≠ some [] := by
  intro empty
  have calm := reachable.tidy.calm idle
  have interactive := interactive_of_pending calm idle pending
  obtain ⟨content, flow, collected, built, started⟩ := exists_start_of_pending calm idle pending
  rw [← Request.address?_of_content collected] at empty
  have idle' : ((s.announce r).countWitness r).phase = .idle := by simpa using idle
  have doomed : (s.request check derive r style).session.Doomed := by
    rw [started, start_some_of_idle idle']
    exact (dooms_step rfl rfl (Flow.refuses_of_empty built interactive empty)).doomed
  exact doomed.unapproved past response approved

/-- Up to an approval the screens of the flow are rendered, and nothing else but the question about
a rejection. -/
theorem mem_screens_iff_of_approved (reachable : s.Reachable) (idle : s.phase = .idle)
    (pending : (s.request check derive r style).result = .ok .pending) {past : List Response}
    {response : Response}
    (approved : (((s.request check derive r style).session.after (past.map .respond)).update
      response).result = .ok (.exit true)) :
    ∃ content flow, r.content? derive = .ok (some content) ∧
      Flow.of (r.policy s.tx check) content = .ok flow ∧
      ∀ screen, screen ≠ .choice .rejection →
        (screen ∈ (s.consult check derive r style (past ++ [response])).flatMap Reply.screens ↔
          screen ∈ Layout.screens style flow.items) := by
  have filled := address?_ne_nil_of_approved reachable idle pending approved
  obtain ⟨content, flow, collected, built, follows, first⟩ :=
    follows_request reachable idle filled pending
  obtain ⟨content', flow', collected', built', rendered⟩ :=
    rendered_of_approved reachable idle filled pending approved
  cases collected.symm.trans collected'
  cases built.symm.trans built'
  refine ⟨content, flow, collected, built, fun screen other => ⟨fun among => ?_, fun among => ?_⟩⟩
  · obtain ⟨reply, replied, shown⟩ := List.mem_flatMap.mp among
    rw [consult, run, List.mem_cons] at replied
    rcases replied with rfl | later
    · -- The first reply shows one screen, that in front of which the session then stands.
      cases begins_request reachable.tidy idle check derive r style with
      | fails result => cases result.symm.trans pending
      | exits d result => cases result.symm.trans pending
      | @advances f here advances =>
        have shows : screen = here := by
          have rendered := Reply.mem_screens_iff.mp shown
          rw [perform, advances.rendered] at rendered
          cases List.mem_singleton.mp rendered
          rfl
        have seen : (s.request check derive r style).seen = (.ok .pending, [.screen here]) :=
          Prod.ext pending advances.rendered
        rw [showing_of_seen seen none] at first
        subst shows
        exact List.mem_of_getElem? first.symm
    · exact (follows.screen_of_rendered _ reply later screen shown).resolve_right other
  · obtain ⟨reply, replied, shown⟩ := rendered screen among
    exact List.mem_flatMap.mpr
      ⟨reply, List.dropLast_subset _ replied, Reply.mem_screens_iff.mpr shown⟩

/-- A request that is not left pending leaves nothing to respond to. -/
theorem idle_of_settled (tidy : s.Tidy)
    (settled : (s.request check derive r style).result ≠ .ok .pending) :
    (s.request check derive r style).session.phase = .idle := by
  by_cases idle : s.phase = .idle
  · cases begins_request tidy idle check derive r style with
    | fails result session rendered => rw [session]
    | exits d result session rendered => rw [session]
    | advances advances => exact absurd advances.result settled
  · rw [request_of_busy idle]
    rfl

/-- A request is approved at once, or by the last response to it. -/
theorem approved_cases (reachable : s.Reachable) {responses : List Response}
    (approved : (s.consult check derive r style responses).getLast?.map Reply.result =
      some (.ok (.exit true))) :
    (responses = [] ∧ (s.request check derive r style).result = .ok (.exit true)) ∨
      ∃ past response, responses = past ++ [response] ∧
        (s.request check derive r style).result = .ok .pending ∧
        (((s.request check derive r style).session.after (past.map .respond)).update
          response).result = .ok (.exit true) := by
  rcases List.eq_nil_or_concat responses with rfl | ⟨past, response, rfl⟩
  · exact .inl ⟨rfl, Option.some.inj approved⟩
  · right
    rw [List.concat_eq_append, consult_concat, List.getLast?_concat] at approved
    have last := Option.some.inj approved
    refine ⟨past, response, List.concat_eq_append, ?_, last⟩
    refine Classical.byContradiction fun settled => ?_
    have idle := idle_of_settled reachable.tidy settled
    rw [after_responses_of_idle idle, update_of_idle idle] at last
    cases last

/-- Accepting all the way approves a request that is asked about, unless its address is empty. -/
theorem exists_accept_approves (reachable : s.Reachable) (idle : s.phase = .idle)
    (interactive : (r.policy s.tx check).isInteractive = true)
    (derived : r.derivationFault? derive = none) (filled : r.address? derive ≠ some [])
    (style : ConfirmStyle) :
    ∃ n, (s.consult check derive r style (List.replicate n .accept)).getLast?.map Reply.result =
      some (.ok (.exit true)) := by
  have calm := reachable.tidy.calm idle
  have pending : (s.request check derive r style).result = .ok .pending := by
    have asked := @seen_request_of_interactive s style check derive r calm idle interactive derived
    rcases asked with ⟨screen, seen⟩ | ⟨-, empty⟩
    · exact congrArg Prod.fst seen
    · exact absurd empty filled
  obtain ⟨content, flow, -, -, follows, -⟩ := follows_request reachable idle filled pending
  have busy := mt follows.idle_iff.mp (by rintro ⟨⟩)
  obtain ⟨n, -, accepted⟩ := follows.accept_approves busy follows.calm
  refine ⟨n + 1, ?_⟩
  rw [consult, List.map_replicate, run, perform, ← List.getLast?_map, List.map_cons, accepted,
    List.getLast?_cons, List.getLast?_concat]
  rfl

end Session

end WalletConsent
