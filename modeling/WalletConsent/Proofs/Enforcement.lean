import WalletConsent.Proofs.Walk

/-!
The policy for a request is what the session then does. What is denied fails and takes the
transaction along, what is allowed is answered in silence, and what the user has to decide is never
answered before a screen has been shown, a warning if the policy warns.
-/

set_option autoImplicit false

namespace WalletConsent

theorem Policy.ne_deny_of_isInteractive {policy : Policy}
    (interactive : policy.isInteractive = true) : policy ≠ .deny := by
  rintro rfl
  cases interactive

theorem Policy.eq_allow_of_not_isInteractive {policy : Policy} (admitted : policy ≠ .deny)
    (silent : ¬ policy.isInteractive = true) : policy = .allow := by
  cases policy <;> simp_all [isInteractive]

theorem Request.policy_announce (r : Request) (s : Session) (check : AddressCheck) :
    r.policy (s.announce r).tx check = r.policy s.tx check := by
  cases r <;> rfl

namespace Session

variable {s : Session} {f : Flow} {style : ConfirmStyle}

@[simp]
theorem rejecting_announce (r : Request) : (s.announce r).rejecting = s.rejecting := by
  cases r <;> rfl

@[simp]
theorem rejecting_countWitness (r : Request) : (s.countWitness r).rejecting = s.rejecting := by
  cases r with
  | witness path => unfold countWitness; cases s.tx <;> rfl
  | _ => rfl

/-- Short of the end of the flow, going on answers and renders what playing the offers left does. -/
theorem seen_step {o : Outcome Progress} (active : s.flow = some f)
    (played : (s.display.play (f.offers f.step)).1 = o) (stops : o.result ≠ .ok .complete) :
    s.step.seen = (o.result.map fun _ => .pending, o.rendered) := by
  have driven := congrArg Prod.fst (Flow.drive_plays f f.step s.display)
  dsimp only at driven
  rw [played] at driven
  unfold step
  simp only [active, Flow.run]
  generalize drive _ f.step s.display = ended at driven
  obtain ⟨result, step', display, rendered, handled⟩ := ended
  subst driven
  cases result with
  | error fault => exact congrArg (Prod.mk _) (List.append_nil rendered)
  | ok progress =>
    cases progress with
    | suspended => exact congrArg (Prod.mk _) (List.append_nil rendered)
    | complete => contradiction

theorem seen_start {o : Outcome Progress} (idle : s.phase = .idle)
    (played : (Display.play { style } (f.offers f.step)).1 = o)
    (stops : o.result ≠ .ok .complete) :
    (s.start (some f) style).seen = (o.result.map fun _ => .pending, o.rendered) := by
  rw [start_some_of_idle idle]
  exact seen_step (s := { s with phase := .running, flow := some f, display := { style } }) rfl
    played stops

theorem start_responds (calm : s.rejecting = false) (idle : s.phase = .idle)
    (left : f.offers f.step = []) (style : ConfirmStyle) :
    (s.start (some f) style).seen = (.ok (.exit true), []) := by
  have none : f.items = [] := by rw [Flow.items, left]; rfl
  have sound : f.offers f.step = f.items.map .ok := by rw [left, none]; rfl
  have walks := walks_start calm idle sound style
  rw [none] at walks
  cases walks with
  | exits seen idle => exact seen

/-- A flow that opens with a warning shows it at once, whatever else it offers. -/
theorem start_warns {message : Text} {later : List (Except Fault Item)} (idle : s.phase = .idle)
    (opens : f.offers f.step = .ok (.warning message) :: later) (style : ConfirmStyle) :
    (s.start (some f) style).seen = (.ok .pending, [.screen (.warning message)]) := by
  have played : (Display.play { style } (f.offers f.step)).1 =
      { result := .ok .suspended
        display := { style, current := some (.warning message) }
        rendered := [.screen (.warning message)] } := by
    rw [opens]
    rfl
  exact seen_start idle played (by simp)

variable {policy : Policy} {content : Flow.Content}

/-- A flow under an interactive policy shows one screen and waits, unless its address is empty. -/
theorem start_asks (calm : s.rejecting = false) (idle : s.phase = .idle)
    (built : Flow.of policy content = .ok f) (interactive : policy.isInteractive = true)
    (style : ConfirmStyle) :
    (∃ screen, (s.start (some f) style).seen = (.ok .pending, [.screen screen])) ∨
      (s.start (some f) style).seen = (.error .invalidLength, []) ∧
        content.address? = some [] := by
  -- An empty address is refused only when its turn comes, which may be behind a first screen.
  by_cases good : ∀ fault, .error fault ∉ f.offers f.step
  · left
    have sound : f.offers f.step = f.items.map .ok := (Flow.map_ok_filterMap_toOption good).symm
    have some := @Layout.screens_ne_nil style _ (Flow.items_ne_nil built interactive sound)
    have walks := walks_start calm idle sound style
    generalize Layout.screens style f.items = screens at walks some
    cases walks with
    | shows seen waits => exact ⟨_, seen⟩
    | exits seen idle => contradiction
  · have renders := Display.renders_play (d := { style }) rfl (f.offers f.step)
    generalize played : (Display.play { style } (f.offers f.step)).1 = o at renders
    cases renders with
    | completes none => contradiction
    | suspends => exact .inl ⟨_, seen_start idle played (by simp)⟩
    | fails refused =>
      obtain ⟨rfl, empty⟩ := Flow.fault_of_offers built refused
      exact .inr ⟨seen_start idle played (by simp), empty⟩

variable {check : AddressCheck} {derive : Deriver} {r : Request}

/-- How a session answers a request under each outcome of the policy for it. -/
structure Enforces (s : Session) (check : AddressCheck) (derive : Deriver) (r : Request)
    (style : ConfirmStyle) : Prop where
  denies (denied : r.policy s.tx check = .deny) :
    (s.request check derive r style).seen = (.error .policyDenied, []) ∧
      (s.request check derive r style).session = {}
  allows (allowed : r.policy s.tx check = .allow) :
    (s.request check derive r style).seen =
      ((r.derivationFault? derive).elim (.ok (.exit true)) .error, [])
  /-- An address that cannot be derived is not asked about. -/
  fails {fault : Fault} (interactive : (r.policy s.tx check).isInteractive = true)
      (underived : r.derivationFault? derive = some fault) :
    (s.request check derive r style).seen = (.error fault, [])
  asks (interactive : (r.policy s.tx check).isInteractive = true)
      (derived : r.derivationFault? derive = none) :
    (∃ screen, (s.request check derive r style).seen = (.ok .pending, [.screen screen])) ∨
      (s.request check derive r style).seen = (.error .invalidLength, []) ∧
        r.address? derive = some []
  warns (warned : r.policy s.tx check = .warn) (derived : r.derivationFault? derive = none) :
    ∃ message,
      (s.request check derive r style).seen = (.ok .pending, [.screen (.warning message)])
  /-- No outcome of the policy is one that the flow does not take. -/
  takes {content : Flow.Content} (admitted : r.policy s.tx check ≠ .deny)
      (collected : r.content? derive = .ok (some content)) :
    content.entry? (r.policy s.tx check) ≠ none
  expected
      (failed : (s.request check derive r style).result = .error .unexpectedState) :
    r.derivationFault? derive = some .unexpectedState

theorem request_of_deny (idle : s.phase = .idle) (denied : r.policy s.tx check = .deny) :
    s.request check derive r style = (s.announce r).fail .policyDenied := by
  rw [← r.policy_announce s] at denied
  exact request_of_error idle (Request.flow_of_deny denied)

theorem seen_request_of_derivationFault {fault : Fault} (idle : s.phase = .idle)
    (admitted : r.policy s.tx check ≠ .deny)
    (underived : r.derivationFault? derive = some fault) :
    (s.request check derive r style).seen = (.error fault, []) := by
  rw [← r.policy_announce s] at admitted
  have failed : r.flow (s.announce r).tx check derive = .error fault := by
    cases collected : r.content? derive with
    | error fault' =>
      rw [Request.derivationFault?_of_error collected] at underived
      cases underived
      exact Request.flow_of_error admitted collected
    | ok content =>
      cases content with
      | none =>
        rw [Request.derivationFault?_of_no_content collected] at underived
        cases underived
      | some content =>
        obtain ⟨entry, enters⟩ := Request.exists_entry admitted collected
        rw [Request.derivationFault?_of_content collected] at underived
        cases fits : content.fits with
        | true => simp [fits] at underived
        | false =>
          simp only [fits, Bool.false_eq_true, if_false, Option.some.injEq] at underived
          subst fault
          rw [Request.flow_of_content admitted collected,
            Flow.of_of_not_fits admitted enters fits]
          rfl
  rw [request_of_error idle failed]
  rfl

/-- A request whose address, if any, can be derived starts the flow of its content. -/
theorem exists_start {content : Flow.Content} (idle : s.phase = .idle)
    (admitted : r.policy s.tx check ≠ .deny)
    (collected : r.content? derive = .ok (some content))
    (derived : r.derivationFault? derive = none) (style : ConfirmStyle) :
    ∃ f, Flow.of (r.policy s.tx check) content = .ok f ∧
      s.request check derive r style = ((s.announce r).countWitness r).start (some f) style := by
  obtain ⟨entry, enters⟩ := Request.exists_entry admitted collected
  have fits : content.fits = true := by
    rw [Request.derivationFault?_of_content collected] at derived
    cases fits : content.fits with
    | true => rfl
    | false => simp [fits] at derived
  obtain ⟨f, built⟩ := Flow.exists_of_fits admitted enters fits
  refine ⟨f, built, request_of_flow idle ?_⟩
  rw [← r.policy_announce s] at admitted built
  rw [Request.flow_of_content admitted collected, built]
  rfl

theorem exists_content (interactive : (r.policy s.tx check).isInteractive = true)
    (derived : r.derivationFault? derive = none) :
    ∃ content, r.content? derive = .ok (some content) := by
  cases collected : r.content? derive with
  | error fault =>
    rw [Request.derivationFault?_of_error collected] at derived
    cases derived
  | ok content =>
    cases content with
    | some content => exact ⟨content, rfl⟩
    | none =>
      rw [Request.policy_of_no_content collected] at interactive
      cases interactive

theorem seen_request_of_allow (calm : s.rejecting = false) (idle : s.phase = .idle)
    (allowed : r.policy s.tx check = .allow) :
    (s.request check derive r style).seen =
      ((r.derivationFault? derive).elim (.ok (.exit true)) .error, []) := by
  have admitted : r.policy s.tx check ≠ .deny := by simp [allowed]
  cases derived : r.derivationFault? derive with
  | some fault => exact seen_request_of_derivationFault idle admitted derived
  | none =>
    cases collected : r.content? derive with
    | error fault =>
      rw [Request.derivationFault?_of_error collected] at derived
      cases derived
    | ok content =>
      cases content with
      | none =>
        rw [← r.policy_announce s] at admitted
        rw [request_of_no_flow idle (Request.flow_of_no_content admitted collected)]
        rfl
      | some content =>
        obtain ⟨f, built, started⟩ := exists_start idle admitted collected derived style
        rw [allowed] at built
        rw [started]
        exact start_responds (by simpa using calm) (by simpa using idle)
          (Flow.offers_of_allow built) style

theorem seen_request_of_interactive (calm : s.rejecting = false) (idle : s.phase = .idle)
    (interactive : (r.policy s.tx check).isInteractive = true)
    (derived : r.derivationFault? derive = none) :
    (∃ screen, (s.request check derive r style).seen = (.ok .pending, [.screen screen])) ∨
      (s.request check derive r style).seen = (.error .invalidLength, []) ∧
        r.address? derive = some [] := by
  have admitted := Policy.ne_deny_of_isInteractive interactive
  obtain ⟨content, collected⟩ := exists_content interactive derived
  obtain ⟨f, built, started⟩ := exists_start idle admitted collected derived style
  rw [started, ← Request.address?_of_content collected]
  exact start_asks (by simpa using calm) (by simpa using idle) built interactive style

theorem seen_request_of_warn (idle : s.phase = .idle) (warned : r.policy s.tx check = .warn)
    (derived : r.derivationFault? derive = none) :
    ∃ message,
      (s.request check derive r style).seen = (.ok .pending, [.screen (.warning message)]) := by
  obtain ⟨content, collected⟩ := exists_content (by rw [warned]; rfl) derived
  have admitted : r.policy s.tx check ≠ .deny := by simp [warned]
  obtain ⟨f, built, started⟩ := exists_start idle admitted collected derived style
  obtain ⟨enters, stage, message, later, scenes⟩ := Request.scenes_of_warn warned collected
  rw [warned] at built
  obtain ⟨entry, enters', offered⟩ := Flow.offers_eq_sceneOffers built
  rw [enters] at enters'
  cases enters'
  rw [List.drop_zero, scenes] at offered
  refine ⟨message, ?_⟩
  rw [started]
  exact start_warns (by simpa using idle) offered style

/-- On an idle session only a deriver can find the state unexpected. -/
theorem derivationFault?_of_unexpectedState (calm : s.rejecting = false) (idle : s.phase = .idle)
    (failed : (s.request check derive r style).seen.1 = .error .unexpectedState) :
    r.derivationFault? derive = some .unexpectedState := by
  by_cases denied : r.policy s.tx check = .deny
  · rw [request_of_deny idle denied] at failed
    cases failed
  cases derived : r.derivationFault? derive with
  | some fault =>
    rw [seen_request_of_derivationFault idle denied derived] at failed
    cases failed
    rfl
  | none =>
    by_cases interactive : (r.policy s.tx check).isInteractive = true
    · have asked := @seen_request_of_interactive s style _ _ _ calm idle interactive derived
      rcases asked with ⟨screen, seen⟩ | ⟨seen, -⟩
      · rw [seen] at failed
        cases failed
      · rw [seen] at failed
        cases failed
    · have allowed := Policy.eq_allow_of_not_isInteractive denied interactive
      rw [seen_request_of_allow calm idle allowed, derived] at failed
      cases failed

/-- The policy for a request, under the transaction in progress, is what the session does. -/
theorem request_enforces (reachable : s.Reachable) (idle : s.phase = .idle)
    (check : AddressCheck) (derive : Deriver) (r : Request) (style : ConfirmStyle) :
    s.Enforces check derive r style := by
  have calm : s.rejecting = false := by rw [reachable.tidy.eq_of_idle idle]
  constructor
  case denies =>
    intro denied
    rw [request_of_deny idle denied]
    exact ⟨rfl, rfl⟩
  case allows => exact seen_request_of_allow calm idle
  case fails =>
    intro fault interactive
    exact seen_request_of_derivationFault idle (Policy.ne_deny_of_isInteractive interactive)
  case asks => exact seen_request_of_interactive calm idle
  case warns => exact seen_request_of_warn idle
  case takes =>
    intro content admitted collected refused
    obtain ⟨entry, enters⟩ := Request.exists_entry admitted collected
    rw [refused] at enters
    cases enters
  case expected =>
    exact derivationFault?_of_unexpectedState calm idle

/-- The address of the first account, shown on the device. -/
theorem request_enforces_of_deriveAddress :
    Session.Enforces {} Address.isWellFormed (fun _ _ => .ok (List.replicate 57 0))
      (.deriveAddress .onDevice ⟨[0x8000002c, 0x80000717, 0x80000000, 0, 0], by decide⟩ none)
      .full :=
  request_enforces .fresh rfl _ _ _ _

end Session

end WalletConsent
