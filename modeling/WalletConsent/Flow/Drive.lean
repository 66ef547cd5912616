import WalletConsent.Display.Basic

/-!
Driving a flow: steps are handled one after the other until one has to wait for the user, approves
or fails. A step may only continue at a later one, which bounds the number of steps handled.
-/

set_option autoImplicit false

namespace WalletConsent

/-- Steps in a finite order, each at its place. -/
class Ranked (σ : Type) where
  place : σ → Nat
  size : Nat
  place_lt : ∀ s, place s < size

instance : Ranked UInt32 where
  place := UInt32.toNat
  size := 2 ^ 32
  place_lt := UInt32.toNat_lt

/-- How a handled step goes on. -/
inductive Next (σ : Type)
  | goto (step : σ)
  /-- Go on at this step after the user has accepted. -/
  | wait (step : σ)
  | approve
  deriving DecidableEq

/-- Waits for the user if there is a screen to accept. -/
def Shown.andThen {σ : Type} (step : σ) : Shown → Next σ
  | nothing => .goto step
  | rendered => .wait step

inductive Progress
  | suspended
  | complete
  deriving DecidableEq

structure Driven (σ : Type) where
  result : Except Fault Progress
  /-- Where the flow stands. -/
  step : σ
  display : Display
  rendered : List Rendering
  /-- The steps handled, in order. -/
  handled : List σ

/-- A step that fails or does not advance stays the current one. -/
def drive {σ : Type} [Ranked σ] (handle : σ → Display → Outcome (Next σ)) (step : σ)
    (d : Display) : Driven σ :=
  let o := handle step d
  let stopped (result : Except Fault Progress) (step' : σ) : Driven σ :=
    ⟨result, step', o.display, o.rendered, [step]⟩
  match o.result with
  | .error fault => stopped (.error fault) step
  | .ok .approve => stopped (.ok .complete) step
  | .ok (.wait next) =>
    if Ranked.place step < Ranked.place next then stopped (.ok .suspended) next
    else stopped (.error .unexpectedState) step
  | .ok (.goto next) =>
    if _later : Ranked.place step < Ranked.place next then
      let rest := drive handle next o.display
      { rest with rendered := o.rendered ++ rest.rendered, handled := step :: rest.handled }
    else stopped (.error .unexpectedState) step
termination_by Ranked.size σ - Ranked.place step
decreasing_by
  have := Ranked.place_lt next
  omega

section

variable {σ : Type} [Ranked σ] {handle : σ → Display → Outcome (Next σ)} {step next : σ}
  {d : Display}

theorem drive_of_error {fault : Fault} (failed : (handle step d).result = .error fault) :
    drive handle step d =
      ⟨.error fault, step, (handle step d).display, (handle step d).rendered, [step]⟩ := by
  rw [drive, failed]

theorem drive_of_approve (approved : (handle step d).result = .ok .approve) :
    drive handle step d =
      ⟨.ok .complete, step, (handle step d).display, (handle step d).rendered, [step]⟩ := by
  rw [drive, approved]

theorem drive_of_wait (waits : (handle step d).result = .ok (.wait next))
    (later : Ranked.place step < Ranked.place next) :
    drive handle step d =
      ⟨.ok .suspended, next, (handle step d).display, (handle step d).rendered, [step]⟩ := by
  rw [drive, waits]
  exact if_pos later

theorem drive_of_goto (goes : (handle step d).result = .ok (.goto next))
    (later : Ranked.place step < Ranked.place next) :
    drive handle step d =
      let rest := drive handle next (handle step d).display
      { rest with
        rendered := (handle step d).rendered ++ rest.rendered
        handled := step :: rest.handled } := by
  rw [drive, goes]
  exact dif_pos later

/-- A step that names no later one fails where it stands. -/
theorem drive_of_not_later
    (goes : (handle step d).result = .ok (.goto next) ∨ (handle step d).result = .ok (.wait next))
    (stuck : ¬ Ranked.place step < Ranked.place next) :
    drive handle step d =
      ⟨.error .unexpectedState, step, (handle step d).display, (handle step d).rendered,
        [step]⟩ := by
  rw [drive]
  obtain goes | waits := goes
  · rw [goes]
    exact dif_neg stuck
  · rw [waits]
    exact if_neg stuck

end

end WalletConsent
