import Mathlib.Algebra.Group.Nat.Defs
import WalletConsent.Flow.Drive

/-!
What driving comes to for any handler at all. A call is a chain of rounds, each at a later step than
the one before (`Rounds`), and since steps have a finite number of places, a budget of rounds known
beforehand is enough for the chain to end (`driveWithin_eq_drive`). A call that suspends leaves the
flow behind every step that it handled; one that completes or fails leaves it at the last of them.
So calls made one after the other go through the steps in order, and handle a step again only where
the call before has completed or failed.
-/

set_option autoImplicit false

namespace WalletConsent

section

variable {σ : Type} [Ranked σ]

/-- The loop of a call with a budget of rounds: nothing if it has not ended by then. -/
def driveWithin (handle : σ → Display → Outcome (Next σ)) : Nat → σ → Display → Option (Driven σ)
  | 0, _, _ => none
  | budget + 1, step, d =>
    let o := handle step d
    let stopped (result : Except Fault Progress) (step' : σ) : Option (Driven σ) :=
      some ⟨result, step', o.display, o.rendered, [step]⟩
    match o.result with
    | .error fault => stopped (.error fault) step
    | .ok .approve => stopped (.ok .complete) step
    | .ok (.wait next) =>
      if Ranked.place step < Ranked.place next then stopped (.ok .suspended) next
      else stopped (.error .unexpectedState) step
    | .ok (.goto next) =>
      if Ranked.place step < Ranked.place next then
        (driveWithin handle budget next o.display).map fun rest =>
          { rest with rendered := o.rendered ++ rest.rendered, handled := step :: rest.handled }
      else stopped (.error .unexpectedState) step

/-- Calls one after the other, each from the step that the one before has left. What has become of
the display in between is up to the caller. -/
def driveAll (handle : σ → Display → Outcome (Next σ)) (step : σ) :
    List Display → List (Driven σ)
  | [] => []
  | d :: ds => drive handle step d :: driveAll handle (drive handle step d).step ds

/-- A step named without being a later one. -/
def Stuck (step : σ) (named : Except Fault (Next σ)) : Prop :=
  ∃ next, (named = .ok (.goto next) ∨ named = .ok (.wait next)) ∧
    ¬ Ranked.place step < Ranked.place next

/-- The rounds of a call: each hands over to a later step, until one of them ends the call. -/
inductive Rounds (handle : σ → Display → Outcome (Next σ)) : σ → Display → Driven σ → Prop
  | fails {step : σ} {d : Display} {fault : Fault}
      (failed : (handle step d).result = .error fault) :
      Rounds handle step d
        ⟨.error fault, step, (handle step d).display, (handle step d).rendered, [step]⟩
  | sticks {step : σ} {d : Display} (stuck : Stuck step (handle step d).result) :
      Rounds handle step d
        ⟨.error .unexpectedState, step, (handle step d).display, (handle step d).rendered, [step]⟩
  | approves {step : σ} {d : Display} (approved : (handle step d).result = .ok .approve) :
      Rounds handle step d
        ⟨.ok .complete, step, (handle step d).display, (handle step d).rendered, [step]⟩
  | waits {step next : σ} {d : Display} (waits : (handle step d).result = .ok (.wait next))
      (later : Ranked.place step < Ranked.place next) :
      Rounds handle step d
        ⟨.ok .suspended, next, (handle step d).display, (handle step d).rendered, [step]⟩
  | goes {step next : σ} {d : Display} {driven : Driven σ}
      (goes : (handle step d).result = .ok (.goto next))
      (later : Ranked.place step < Ranked.place next)
      (rest : Rounds handle next (handle step d).display driven) :
      Rounds handle step d
        { driven with
          rendered := (handle step d).rendered ++ driven.rendered
          handled := step :: driven.handled }

/-- The call from a step on a display comes to a step on a display. -/
inductive ComesTo (handle : σ → Display → Outcome (Next σ)) (last : σ) (e : Display) :
    σ → Display → Prop
  | here : ComesTo handle last e last e
  | on {step next : σ} {d : Display} (goes : (handle step d).result = .ok (.goto next))
      (later : Ranked.place step < Ranked.place next)
      (rest : ComesTo handle last e next (handle step d).display) :
      ComesTo handle last e step d

variable {handle : σ → Display → Outcome (Next σ)} {step : σ} {d : Display} {driven : Driven σ}

theorem rounds_drive (handle : σ → Display → Outcome (Next σ)) (step : σ) (d : Display) :
    Rounds handle step d (drive handle step d) := by
  -- The places behind the step get fewer.
  generalize size : Ranked.size σ - Ranked.place step = n
  induction n using Nat.strongRecOn generalizing step d with
  | ind n ih =>
    subst size
    cases result : (handle step d).result with
    | error fault =>
      rw [drive_of_error result]
      exact .fails result
    | ok named =>
      cases named with
      | approve =>
        rw [drive_of_approve result]
        exact .approves result
      | wait next =>
        by_cases later : Ranked.place step < Ranked.place next
        · rw [drive_of_wait result later]
          exact .waits result later
        · rw [drive_of_not_later (.inr result) later]
          exact .sticks ⟨next, .inr result, later⟩
      | goto next =>
        by_cases later : Ranked.place step < Ranked.place next
        · have room := Ranked.place_lt next
          rw [drive_of_goto result later]
          exact .goes result later (ih _ (by omega) next _ rfl)
        · rw [drive_of_not_later (.inl result) later]
          exact .sticks ⟨next, .inl result, later⟩

theorem Rounds.driveWithin_succ (rounds : Rounds handle step d driven) {budget : Nat}
    (enough : Ranked.size σ - Ranked.place step ≤ budget + 1) :
    driveWithin handle (budget + 1) step d = some driven := by
  induction rounds generalizing budget with
  | fails failed => simp only [driveWithin, failed]
  | sticks stuck =>
    obtain ⟨next, named | named, stays⟩ := stuck
    · simp only [driveWithin, named, if_neg stays]
    · simp only [driveWithin, named, if_neg stays]
  | approves approved => simp only [driveWithin, approved]
  | waits waits later => simp only [driveWithin, waits, if_pos later]
  | @goes step next d driven goes later rest ih =>
    have room := Ranked.place_lt next
    obtain ⟨budget, rfl⟩ := Nat.exists_eq_succ_of_ne_zero (n := budget) (by omega)
    have left := @ih budget (by omega)
    rw [driveWithin]
    simp only [goes, if_pos later, left, Option.map_some]

/-- One round for each place from the step on is budget enough. -/
theorem driveWithin_eq_drive (handle : σ → Display → Outcome (Next σ)) (d : Display) {budget : Nat}
    (enough : Ranked.size σ - Ranked.place step ≤ budget) :
    driveWithin handle budget step d = some (drive handle step d) := by
  have room := Ranked.place_lt step
  obtain ⟨budget, rfl⟩ := Nat.exists_eq_succ_of_ne_zero (n := budget) (by omega)
  exact (rounds_drive handle step d).driveWithin_succ enough

theorem Rounds.head?_handled (rounds : Rounds handle step d driven) :
    driven.handled.head? = some step := by
  cases rounds <;> rfl

theorem Rounds.mem_handled (rounds : Rounds handle step d driven) : step ∈ driven.handled :=
  List.mem_of_head? rounds.head?_handled

theorem Rounds.place_le_of_mem (rounds : Rounds handle step d driven) {t : σ}
    (among : t ∈ driven.handled) : Ranked.place step ≤ Ranked.place t := by
  induction rounds with
  | fails | sticks | approves | waits =>
    cases List.mem_singleton.mp among
    exact Nat.le_refl _
  | goes goes later rest ih =>
    rcases List.mem_cons.mp among with rfl | among
    · exact Nat.le_refl _
    · exact Nat.le_trans (Nat.le_of_lt later) (ih among)

/-- A call goes through its steps in order. -/
theorem Rounds.pairwise_handled (rounds : Rounds handle step d driven) :
    driven.handled.Pairwise fun t t' => Ranked.place t < Ranked.place t' := by
  induction rounds with
  | fails | sticks | approves | waits => exact List.pairwise_singleton _ _
  | goes goes later rest ih =>
    apply List.Pairwise.cons _ ih
    intro t among
    exact Nat.lt_of_lt_of_le later (rest.place_le_of_mem among)

/-- A call that suspends leaves the flow behind every step that it has handled. -/
theorem Rounds.place_lt_step (rounds : Rounds handle step d driven)
    (suspended : driven.result = .ok .suspended) {t : σ} (among : t ∈ driven.handled) :
    Ranked.place t < Ranked.place driven.step := by
  induction rounds generalizing t with
  | fails | sticks | approves => cases suspended
  | waits waits later =>
    cases List.mem_singleton.mp among
    exact later
  | goes goes later rest ih =>
    have beyond := ih suspended rest.mem_handled
    rcases List.mem_cons.mp among with rfl | among
    · exact Nat.lt_trans later beyond
    · exact ih suspended among

/-- A call that completes or fails leaves the flow at the last step that it has handled. -/
theorem Rounds.getLast?_handled (rounds : Rounds handle step d driven)
    (stopped : driven.result ≠ .ok .suspended) :
    driven.handled.getLast? = some driven.step := by
  induction rounds with
  | fails | sticks | approves => rfl
  | waits waits later => exact absurd rfl stopped
  | goes goes later rest ih =>
    have last := ih stopped
    simp only [List.getLast?_cons, last, Option.getD_some]

theorem Rounds.place_le_step (rounds : Rounds handle step d driven) {t : σ}
    (among : t ∈ driven.handled) : Ranked.place t ≤ Ranked.place driven.step := by
  by_cases suspended : driven.result = .ok .suspended
  · exact Nat.le_of_lt (rounds.place_lt_step suspended among)
  · -- The last of an increasing list is its largest.
    obtain ⟨front, split⟩ := List.getLast?_eq_some_iff.mp (rounds.getLast?_handled suspended)
    have ordered := rounds.pairwise_handled
    simp only [split, List.pairwise_append] at ordered
    rw [split] at among
    rcases List.mem_append.mp among with earlier | last
    · exact Nat.le_of_lt (ordered.2.2 t earlier _ (List.mem_singleton.mpr rfl))
    · cases List.mem_singleton.mp last
      exact Nat.le_refl _

/-- A call fails at the step where it leaves the flow: there the handler fails, or does not
advance. -/
theorem Rounds.comesTo_of_error (rounds : Rounds handle step d driven) {fault : Fault}
    (failed : driven.result = .error fault) :
    ∃ e, ComesTo handle driven.step e step d ∧
      ((handle driven.step e).result = .error fault ∨
        fault = .unexpectedState ∧ Stuck driven.step (handle driven.step e).result) := by
  induction rounds with
  | @fails step d fault' failed' =>
    cases failed
    exact ⟨d, .here, .inl failed'⟩
  | @sticks step d stuck =>
    cases failed
    exact ⟨d, .here, .inr ⟨rfl, stuck⟩⟩
  | approves | waits => cases failed
  | goes goes later rest ih =>
    obtain ⟨e, comes, ends⟩ := ih failed
    exact ⟨e, .on goes later comes, ends⟩

/-- Among calls, each begins where the one before has left the flow. -/
theorem exists_drive_of_driveAll {ds : List Display} {before after : List (Driven σ)}
    (split : driveAll handle step ds = before ++ driven :: after) :
    ∃ begun d later, driven = drive handle begun d ∧ after = driveAll handle driven.step later := by
  induction before generalizing step ds with
  | nil =>
    cases ds with
    | nil => cases split
    | cons d ds =>
      cases split
      exact ⟨step, d, ds, rfl, rfl⟩
  | cons first before ih =>
    cases ds with
    | nil => cases split
    | cons d ds => exact ih (List.cons.inj split).2

/-- Where a call leaves the flow, no step of it or of a call before lies ahead. -/
theorem place_le_of_driveAll {ds : List Display} {before after : List (Driven σ)} {r : Driven σ}
    (split : driveAll handle step ds = before ++ driven :: after) (upTo : r ∈ before ++ [driven])
    {t : σ} (among : t ∈ r.handled) :
    Ranked.place step ≤ Ranked.place t ∧ Ranked.place t ≤ Ranked.place driven.step ∧
      (driven.result = .ok .suspended → Ranked.place t < Ranked.place driven.step) := by
  induction before generalizing step ds r t with
  | nil =>
    cases ds with
    | nil => cases split
    | cons d ds =>
      have rounds := rounds_drive handle step d
      cases List.mem_singleton.mp upTo
      cases split
      exact ⟨rounds.place_le_of_mem among, rounds.place_le_step among,
        fun suspended => rounds.place_lt_step suspended among⟩
  | cons first before ih =>
    cases ds with
    | nil => cases split
    | cons d ds =>
      have rounds := rounds_drive handle step d
      obtain ⟨rfl, rest⟩ := List.cons.inj split
      rcases List.mem_cons.mp upTo with rfl | upTo
      · -- The last call handles some step, and that is none before the end of the first call.
        obtain ⟨begun, e, later, rfl, -⟩ := exists_drive_of_driveAll rest
        have further := ih rest (List.mem_append_right _ (List.mem_singleton.mpr rfl))
          (rounds_drive handle begun e).mem_handled
        have bound := rounds.place_le_step among
        refine ⟨rounds.place_le_of_mem among, ?_, fun suspended => ?_⟩
        · exact Nat.le_trans bound (Nat.le_trans further.1 further.2.1)
        · exact Nat.lt_of_le_of_lt (Nat.le_trans bound further.1) (further.2.2 suspended)
      · have further := ih rest upTo among
        have moved := rounds.place_le_step rounds.mem_handled
        exact ⟨Nat.le_trans moved further.1, further.2⟩

/-- A step handled again is the one where the call before has completed or failed. -/
theorem place_eq_of_handled_again {ds : List Display} {before after : List (Driven σ)}
    {next : Driven σ} (split : driveAll handle step ds = before ++ driven :: next :: after)
    {t : σ} (again : t ∈ next.handled)
    (handled : ∃ r ∈ before ++ [driven], t ∈ r.handled) :
    driven.result ≠ .ok .suspended ∧ Ranked.place t = Ranked.place driven.step := by
  obtain ⟨r, upTo, among⟩ := handled
  obtain ⟨begun, d, later, -, following⟩ := exists_drive_of_driveAll split
  have below := place_le_of_driveAll split upTo among
  have first : driveAll handle driven.step later = [] ++ next :: after := following.symm
  have above : Ranked.place driven.step ≤ Ranked.place t :=
    (place_le_of_driveAll first (List.mem_singleton.mpr rfl) again).1
  refine ⟨fun suspended => ?_, Nat.le_antisymm below.2.1 above⟩
  exact Nat.not_lt_of_le above (below.2.2 suspended)

end

/-- How a handler of numbered steps is driven from a step on. -/
structure OnlyAdvances (handle : UInt32 → Display → Outcome (Next UInt32)) (step : UInt32) :
    Prop where
  /-- The loop ends, at the latest after one round for each number from the step on. -/
  ends (d : Display) (budget : Nat) (enough : 2 ^ 32 - step.toNat ≤ budget) :
    driveWithin handle budget step d = some (drive handle step d)
  begins (d : Display) : (drive handle step d).handled.head? = some step
  increases (d : Display) : (drive handle step d).handled.Pairwise (· < ·)
  /-- A handler that fails or does not advance leaves the flow where it is. -/
  fails (d : Display) (fault : Fault) (failed : (drive handle step d).result = .error fault) :
    let last := (drive handle step d).step
    ∃ e, ComesTo handle last e step d ∧
      ((handle last e).result = .error fault ∨
        fault = .unexpectedState ∧
          ∃ next, ((handle last e).result = .ok (.goto next) ∨
            (handle last e).result = .ok (.wait next)) ∧ next ≤ last)
  /-- Completing or failing, a call leaves the flow at the last step that it has handled. -/
  stops (d : Display) (stopped : (drive handle step d).result ≠ .ok .suspended) :
    (drive handle step d).handled.getLast? = some (drive handle step d).step
  /-- Suspending, a call leaves the flow behind every step handled so far, by it or before it. -/
  suspends (ds : List Display) (before after : List (Driven UInt32)) (driven : Driven UInt32)
      (split : driveAll handle step ds = before ++ driven :: after)
      (suspended : driven.result = .ok .suspended) :
    ∀ r ∈ before ++ [driven], ∀ t ∈ r.handled, t < driven.step
  /-- Only the step where a call has completed or failed is handled again, by the next call. -/
  repeats (ds : List Display) (before after : List (Driven UInt32))
      (driven next : Driven UInt32)
      (split : driveAll handle step ds = before ++ driven :: next :: after) :
    ∀ t ∈ next.handled, (∃ r ∈ before ++ [driven], t ∈ r.handled) →
      driven.result ≠ .ok .suspended ∧ driven.handled.getLast? = some t

/-- Whatever its handler does, driving ends and only moves forward. -/
theorem drive_only_advances (handle : UInt32 → Display → Outcome (Next UInt32))
    (step : UInt32) : OnlyAdvances handle step where
  ends d _ enough := driveWithin_eq_drive handle d enough
  begins d := (rounds_drive handle step d).head?_handled
  increases d := (rounds_drive handle step d).pairwise_handled
  fails d fault failed := by
    obtain ⟨e, comes, ends⟩ := (rounds_drive handle step d).comesTo_of_error failed
    refine ⟨e, comes, ends.imp_right fun ⟨unexpected, next, named, stuck⟩ => ?_⟩
    exact ⟨unexpected, next, named, UInt32.not_lt.mp stuck⟩
  stops d stopped := (rounds_drive handle step d).getLast?_handled stopped
  suspends ds before after driven split suspended := by
    intro r upTo t among
    exact (place_le_of_driveAll split upTo among).2.2 suspended
  repeats ds before after driven next split := by
    intro t again handled
    obtain ⟨stopped, same⟩ := place_eq_of_handled_again split again handled
    obtain ⟨begun, d, later, rfl, -⟩ := exists_drive_of_driveAll split
    have last := (rounds_drive handle begun d).getLast?_handled stopped
    rw [UInt32.toNat_inj.mp same]
    exact ⟨stopped, last⟩

end WalletConsent
