import WalletConsent.Flow.Drive
import WalletConsent.Flow.Script

/-!
Flows: a script, and the step at which it stands. A step is a place in the script and, inside an
address, the piece to show. Behind the last scene a flow responds, which approves it.
-/

set_option autoImplicit false

namespace WalletConsent

namespace Flow

structure Step where
  scene : UInt8
  piece : UInt8
  deriving DecidableEq

namespace Step

def ofScene (scene : Nat) : Step := ⟨UInt8.ofNat scene, 0⟩

def nextScene (s : Step) : Step := ⟨s.scene + 1, 0⟩

def nextPiece (s : Step) : Step := { s with piece := s.piece + 1 }

instance : Ranked Step where
  place s := 256 * s.scene.toNat + s.piece.toNat
  size := 256 * 256
  place_lt s := by
    have := s.scene.toNat_lt
    have := s.piece.toNat_lt
    omega

end Step

/-- The stage of a step, the response behind the last scene. -/
def Kind.stageAt (k : Kind) (s : Step) : Stage :=
  (k.stages[s.scene.toNat]?).getD .respond

end Flow

structure Flow where
  content : Flow.Content
  policy : Policy
  step : Flow.Step
  fits : content.fits = true
  deriving DecidableEq

namespace Flow

/-- A denied request has no flow, and neither has an outcome that the flow does not take. -/
def of (policy : Policy) (content : Content) : Except Fault Flow := do
  let policy ← policy.check
  match content.entry? policy with
  | none => throw .unexpectedState
  | some entry =>
    if h : content.fits = true then return ⟨content, policy, Step.ofScene entry, h⟩
    else throw .invalidLength

def kind (f : Flow) : Kind := f.content.kind

def scenes (f : Flow) : List Scene := f.content.scenes f.policy

def handle (f : Flow) (s : Step) (d : Display) : Outcome (Next Step) :=
  match (f.scenes[s.scene.toNat]?).map Scene.body with
  | none => { result := .ok .approve, display := d }
  | some .pass => { result := .ok (.goto s.nextScene), display := d }
  | some (.item item) => (d.offer item).map (Shown.andThen s.nextScene)
  | some (.address label raw) =>
    let next := if s.piece.toNat + 1 < Address.pieceCount raw then s.nextPiece else s.nextScene
    (d.offer (Item.piece? label raw s.piece.toNat)).map (Shown.andThen next)

/-- What driving the active flow came to. -/
structure Run where
  result : Except Fault Progress
  flow : Option Flow
  display : Display
  rendered : List Rendering := []
  /-- The steps handled, each with the kind of its flow. -/
  handled : List (Kind × Step) := []

/-- Without an active flow there is nothing to drive. -/
def run (active : Option Flow) (d : Display) : Run :=
  match active with
  | none => { result := .error .unexpectedState, flow := none, display := d }
  | some f =>
    let driven := drive f.handle f.step d
    { driven with
      flow := some { f with step := driven.step }
      handled := driven.handled.map fun step => (f.kind, step) }

end Flow

end WalletConsent
