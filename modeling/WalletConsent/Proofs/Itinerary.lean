import WalletConsent.Proofs.Walk

/-!
The steps that a flow has ahead of it, up to the one where it responds. Driving a flow handles a
front of them and leaves the others for later. Accepting all the way therefore handles exactly
these steps, each once and in order, and shows the facts that they bring.
-/

set_option autoImplicit false

namespace WalletConsent

namespace Flow

/-- The steps from a step on, up to the one where the flow responds. -/
def ahead (f : Flow) (s : Step) : List Step :=
  match _following : f.next? s with
  | none => [s]
  | some next => s :: f.ahead next
termination_by Ranked.size Step - Ranked.place s
decreasing_by
  have later := place_lt_of_next? _following
  have room := Ranked.place_lt next
  omega

variable {f : Flow} {s : Step}

theorem ahead_of_next?_eq_none (last : f.next? s = none) : f.ahead s = [s] := by
  rw [ahead]
  split
  · rfl
  · simp_all

theorem ahead_of_next? {next : Step} (following : f.next? s = some next) :
    f.ahead s = s :: f.ahead next := by
  rw [ahead]
  split
  · simp_all
  · simp_all

/-- Where a flow stands does not matter to the steps behind another step. -/
theorem ahead_at (f : Flow) (step s : Step) : ({ f with step } : Flow).ahead s = f.ahead s := by
  induction s using ahead.induct f with
  | case1 s last =>
    have last' : ({ f with step } : Flow).next? s = none := last
    rw [ahead_of_next?_eq_none last, ahead_of_next?_eq_none last']
  | case2 s next following ih =>
    have following' : ({ f with step } : Flow).next? s = some next := following
    rw [ahead_of_next? following, ahead_of_next? following', ih]

/-- The steps ahead offer what is left of the flow. -/
theorem filterMap_offer?_ahead (f : Flow) (s : Step) :
    (f.ahead s).filterMap f.offer? = f.offers s := by
  induction s using ahead.induct f with
  | case1 s last =>
    rw [ahead_of_next?_eq_none last, offers_of_next?_eq_none last, List.filterMap_cons,
      offer?_of_next?_eq_none last]
    rfl
  | case2 s next following ih =>
    rw [ahead_of_next? following, offers_of_next? following, ← ih, List.filterMap_cons]
    cases f.offer? s <;> rfl

theorem scene_le_of_next? {next : Step} (following : f.next? s = some next) :
    s.scene.toNat ≤ next.scene.toNat := by
  rcases scene_of_next? following with same | ⟨inside, rfl⟩
  · exact Nat.le_of_eq (congrArg UInt8.toNat same.symm)
  · have few := f.length_scenes_le
    rw [Step.toNat_scene_ofScene (by omega)]
    exact Nat.le_succ _

/-- No step ahead belongs to an earlier scene. -/
theorem scene_le_of_mem_ahead {t : Step} (among : t ∈ f.ahead s) :
    s.scene.toNat ≤ t.scene.toNat := by
  induction s using ahead.induct f with
  | case1 s last =>
    rw [ahead_of_next?_eq_none last, List.mem_singleton] at among
    exact Nat.le_of_eq (congrArg (fun t => t.scene.toNat) among.symm)
  | case2 s next following ih =>
    rw [ahead_of_next? following] at among
    rcases List.mem_cons.mp among with rfl | among
    · exact Nat.le_refl _
    · exact Nat.le_trans (scene_le_of_next? following) (ih among)

/-- The steps ahead lead through every later scene, from its first step on. -/
theorem exists_ahead_eq_append {i : Nat} (inside : i ≤ f.scenes.length)
    (before : s.scene.toNat < i) :
    ∃ front, f.ahead s = front ++ f.ahead (Step.ofScene i) ∧
      ∀ t ∈ front, t.scene.toNat < i := by
  induction s using ahead.induct f with
  | case1 s last =>
    have outside := next?_eq_none_iff.mp last
    omega
  | case2 s next following ih =>
    have further := ahead_of_next? following
    by_cases there : next = Step.ofScene i
    · refine ⟨[s], ?_, List.forall_mem_singleton.mpr before⟩
      rw [further, there]
      rfl
    · have nearer : next.scene.toNat < i := by
        rcases scene_of_next? following with same | ⟨here, rfl⟩
        · rwa [same]
        · have few := f.length_scenes_le
          rw [Step.toNat_scene_ofScene (by omega)]
          exact Nat.lt_of_le_of_ne before fun last => there (by rw [← last])
      obtain ⟨front, split, bounded⟩ := ih nearer
      refine ⟨s :: front, ?_, List.forall_mem_cons.mpr ⟨before, bounded⟩⟩
      rw [further, split]
      rfl

theorem exists_ahead_ofScene {i j : Nat} (ordered : i ≤ j) (inside : j ≤ f.scenes.length) :
    ∃ front, f.ahead (Step.ofScene i) = front ++ f.ahead (Step.ofScene j) ∧
      ∀ t ∈ front, i ≤ t.scene.toNat ∧ t.scene.toNat < j := by
  have few := f.length_scenes_le
  have here : (Step.ofScene i).scene.toNat = i := Step.toNat_scene_ofScene (by omega)
  rcases Nat.eq_or_lt_of_le ordered with rfl | before
  · exact ⟨[], rfl, fun t none => nomatch none⟩
  · obtain ⟨front, split, bounded⟩ :=
      exists_ahead_eq_append (s := Step.ofScene i) inside (by rwa [here])
    refine ⟨front, split, fun t among => ⟨?_, bounded t among⟩⟩
    have ahead : t ∈ f.ahead (Step.ofScene i) := split ▸ List.mem_append_left _ among
    exact here ▸ scene_le_of_mem_ahead ahead

/-- The items that steps offer. -/
def itemsAt (f : Flow) (steps : List Step) : List Item :=
  (steps.filterMap f.offer?).filterMap Except.toOption

theorem itemsAt_append (f : Flow) (steps steps' : List Step) :
    f.itemsAt (steps ++ steps') = f.itemsAt steps ++ f.itemsAt steps' := by
  rw [itemsAt, List.filterMap_append, List.filterMap_append]
  rfl

theorem items_eq_itemsAt_ahead (f : Flow) : f.items = f.itemsAt (f.ahead f.step) := by
  rw [items, itemsAt, filterMap_offer?_ahead]

/-- The steps from the first of a scene up to that of the next one offer what the scene offers. -/
theorem itemsAt_scene {scene : Scene} {i : Nat} {own : List Step} (here : f.scenes[i]? = some scene)
    (split : f.ahead (Step.ofScene i) = own ++ f.ahead (Step.ofScene (i + 1))) :
    f.itemsAt own = (scene.body.offers 0).filterMap Except.toOption := by
  have few := f.length_scenes_le
  have inside := (List.getElem?_eq_some_iff.mp here).1
  have place : (Step.ofScene i).scene.toNat = i := Step.toNat_scene_ofScene (by omega)
  have found : f.scenes[(Step.ofScene i).scene.toNat]? = some scene := by rw [place, here]
  have offered := f.filterMap_offer?_ahead (Step.ofScene i)
  rw [split, List.filterMap_append, filterMap_offer?_ahead, offers_eq_append_nextScene found,
    Step.nextScene_eq, place] at offered
  rw [itemsAt, List.append_cancel_right offered]
  rfl

theorem flatMap_factsAt (f : Flow) (steps : List Step) :
    steps.flatMap f.factsAt = (f.itemsAt steps).flatMap Item.facts := by
  induction steps with
  | nil => rfl
  | cons s steps ih =>
    have split := f.itemsAt_append [s] steps
    rw [List.singleton_append] at split
    rw [List.flatMap_cons, ih, split, List.flatMap_append]
    congr 1
    cases offered : f.offer? s with
    | none => simp [factsAt, itemsAt, offered]
    | some offer => cases offer <;> simp [factsAt, itemsAt, offered, Except.toOption]

/-- Driving a flow handles the steps ahead up to where it suspends or fails. -/
inductive Covers (f : Flow) (s : Step) (driven : Driven Step) : Prop
  | completes (result : driven.result = .ok .complete) (all : driven.handled = f.ahead s)
  | suspends (result : driven.result = .ok .suspended)
      (split : driven.handled ++ f.ahead driven.step = f.ahead s)
  | fails {fault : Fault} (result : driven.result = .error fault)
      (front : driven.handled <+: f.ahead s)

theorem Covers.cons {next : Step} {driven : Driven Step} {rendered : List Rendering}
    (following : f.next? s = some next) (covers : f.Covers next driven) :
    f.Covers s { driven with rendered, handled := s :: driven.handled } := by
  have further := ahead_of_next? following
  cases covers with
  | completes result all => exact .completes result (by rw [further, all])
  | suspends result split => exact .suspends result (by rw [further, ← split]; rfl)
  | fails result front =>
    refine .fails result ?_
    rw [further]
    exact (List.prefix_cons_inj s).mpr front

theorem covers (f : Flow) (s : Step) (d : Display) : f.Covers s (drive f.handle s d) := by
  have drives := f.drives s d
  generalize drive f.handle s d = driven at drives
  induction drives with
  | approves last => exact .completes rfl (ahead_of_next?_eq_none last).symm
  | passes following offered left rest ih => exact .cons following ih
  | @refuses s next d offer fault following =>
    have front : [s] <+: f.ahead s := by
      rw [ahead_of_next? following]
      exact (List.prefix_cons_inj s).mpr List.nil_prefix
    exact .fails rfl front
  | renders following => exact .suspends rfl (ahead_of_next? following).symm
  | gathers following offered left shown rest ih => exact .cons following ih

end Flow

namespace Session

/-- The steps that a session has ahead of it; behind the last page there are none. -/
def ahead (s : Session) : List Flow.Step :=
  match s.phase, s.flow with
  | .running, some f => f.ahead f.step
  | _, _ => []

variable {s : Session} {flow : Flow} {step : Flow.Step} {style : ConfirmStyle}
  {statuses : Option Statuses} {screen : Screen} {rest : List Screen}

theorem ahead_of_running (running : s.phase = .running)
    (active : s.flow = some { flow with step }) : s.ahead = flow.ahead step := by
  rw [ahead, running, active]
  exact flow.ahead_at step step

theorem ahead_of_not_running (stopped : s.phase ≠ .running) : s.ahead = [] := by
  unfold ahead
  split
  · contradiction
  · rfl

theorem ahead_finish (s : Session) (approved : Bool) : (s.finish approved).session.ahead = [] := by
  apply ahead_of_not_running
  rw [phase_finish]
  exact Phase.noConfusion

theorem ahead_complete (s : Session) : s.complete.session.ahead = [] := by
  by_cases empty : s.display.pager.opened = []
  · rw [complete_of_opened_eq_nil empty]
    exact ahead_finish _ true
  · rw [complete_of_opened_ne_nil empty]
    exact ahead_of_not_running Phase.noConfusion

/-- Driving the flow of a session, by the steps handled on the way. -/
inductive Covers (s : Session) (f : Flow) (reply : Reply) : Prop
  | fails {fault : Fault} (result : reply.result = .error fault)
      (idle : reply.session.phase = .idle) (front : reply.steps <+: f.ahead f.step)
  | suspends {step : Flow.Step} {display : Display} (result : reply.result = .ok .pending)
      (session : reply.session = { s with flow := some { f with step }, display })
      (split : reply.steps ++ f.ahead step = f.ahead f.step)
  | completes (done : Session) (result : reply.result = done.complete.result)
      (session : reply.session = done.complete.session) (all : reply.steps = f.ahead f.step)

theorem covers_step {f : Flow} (active : s.flow = some f) : s.Covers f s.step := by
  have covers := f.covers f.step s.display
  unfold Session.step
  simp only [active, Flow.run]
  generalize drive f.handle f.step s.display = driven at covers
  obtain ⟨result, step', display, rendered, handled⟩ := driven
  have same : (handled.map fun step => (f.kind, step)).map Prod.snd = handled := by
    simp [Function.comp_def]
  cases covers with
  | completes completed all =>
    dsimp only at completed all ⊢
    subst completed all
    exact .completes _ rfl rfl same
  | suspends suspended split =>
    dsimp only at suspended split ⊢
    subst suspended
    exact .suspends rfl rfl (by rw [Reply.steps, same, split])
  | fails failed front =>
    dsimp only at failed front ⊢
    subst failed
    exact .fails rfl rfl (by rwa [Reply.steps, same])

/-- Going on without a fault handles some of the steps ahead and leaves the others. -/
theorem steps_step (active : s.flow = some { flow with step }) (running : s.phase = .running)
    (good : ∀ fault, s.step.result ≠ .error fault) :
    s.step.steps ++ s.step.session.ahead = flow.ahead step := by
  rw [← flow.ahead_at step step]
  cases covers_step active with
  | fails result idle front => exact absurd result (good _)
  | suspends result session split =>
    rw [session, ← split]
    exact congrArg (s.step.steps ++ ·) (ahead_of_running running rfl)
  | completes done result session all =>
    rw [session, ahead_complete, List.append_nil]
    exact all

theorem Walks.good {screens : List Screen} {reply : Reply}
    (walks : Walks flow style statuses screens reply) (fault : Fault) :
    reply.result ≠ .error fault := by
  intro failed
  cases walks with
  | shows seen waits => cases failed.symm.trans (congrArg Prod.fst seen)
  | exits seen idle => cases failed.symm.trans (congrArg Prod.fst seen)

theorem steps_accept (waits : s.Waits flow style statuses screen rest) :
    s.accept.steps ++ s.accept.session.ahead = s.ahead := by
  have good := waits.walks_accept.good
  obtain ⟨step, items, active, -, -, -, phase⟩ := waits.left
  unfold accept Display.release? at good ⊢
  rw [if_neg (by simp [waits.calm])] at good ⊢
  cases deferred : s.display.deferred with
  | some next => rfl
  | none =>
    rw [deferred] at good
    dsimp only [Option.map_none] at good ⊢
    rcases phase with running | ⟨finishing, -⟩
    · rw [if_neg (by simp [running])] at good ⊢
      rw [steps_step active running good, ahead_of_running running active]
    · have stopped : s.phase ≠ .running := by simp [finishing]
      rw [if_pos finishing, ahead_of_not_running stopped]
      exact ahead_finish s true

/-- Accepting all the way handles every step ahead. -/
theorem Walks.steps {screens : List Screen} {reply : Reply}
    (walks : Walks flow style statuses screens reply) :
    (reply.session.run (List.replicate screens.length (.respond .accept))).flatMap Reply.steps =
      reply.session.ahead := by
  induction screens generalizing reply with
  | nil =>
    cases walks with
    | exits seen idle => exact (ahead_of_not_running (by simp [idle])).symm
  | cons screen screens ih =>
    cases walks with
    | shows seen waits =>
      have accepted := steps_accept waits
      rw [← update_accept waits.phase_ne_idle] at accepted
      rw [List.length_cons, List.replicate_succ, Session.run, perform, List.flatMap_cons,
        ih waits.walks, accepted]

/-- A flow accepted all the way handles all its steps, each once and in order. -/
theorem steps_start_accept (calm : s.rejecting = false) (idle : s.phase = .idle)
    (sound : flow.offers flow.step = flow.items.map .ok) (style : ConfirmStyle) :
    (s.run (.start (some flow) style ::
        List.replicate (Layout.screens style flow.items).length (.respond .accept))).flatMap
      Reply.steps = flow.ahead flow.step := by
  have walks := walks_start calm idle sound style
  rw [run, perform, List.flatMap_cons, walks.steps]
  rw [start_some_of_idle idle] at walks ⊢
  exact steps_step rfl rfl walks.good

end Session

end WalletConsent
