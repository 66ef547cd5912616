import WalletConsent.Fault

/-!
Writing to places of a buffer. An encoder asks for room before it writes, and is refused where there
is too little. Nothing else keeps it from a place outside of the buffer; writing to one stops it,
and that is a mistake of the encoder.
-/

set_option autoImplicit false

namespace WalletConsent

namespace Wire

/-- Why an encoder stops. -/
inductive Stop
  | refused (fault : WireFault)
  /-- A place outside of the buffer was written to. -/
  | outside
  deriving DecidableEq

abbrev Encoder (α : Type) := ExceptT Stop (StateM (List UInt8)) α

namespace Encoder

variable {α β : Type}

/-- How an encoder ends on a buffer, and the buffer afterwards. -/
def on (e : Encoder α) (buffer : List UInt8) : Except Stop α × List UInt8 := e.run.run buffer

def of (f : List UInt8 → Except Stop α × List UInt8) : Encoder α := ExceptT.mk (StateT.mk f)

/-- Refuses a buffer of less than the size. -/
def room (size : Nat) : Encoder Unit := of fun buffer =>
  if buffer.length < size then (.error (.refused .invalidLength), buffer) else (.ok (), buffer)

def put (place : Nat) (bytes : List UInt8) : Encoder Unit := of fun buffer =>
  if place + bytes.length ≤ buffer.length then
    (.ok (), buffer.take place ++ bytes ++ buffer.drop (place + bytes.length))
  else (.error .outside, buffer)

/-- Works on the part of the buffer from the place on. -/
def behind (place : Nat) (e : Encoder α) : Encoder α := of fun buffer =>
  if place ≤ buffer.length then
    let (result, rest) := e.on (buffer.drop place)
    (result, buffer.take place ++ rest)
  else (.error .outside, buffer)

/-- A byte at the front of a buffer. -/
def single (b : UInt8) : Encoder Nat := do
  room 1
  put 0 [b]
  return 1

@[simp]
theorem on_pure (a : α) (buffer : List UInt8) : (pure a : Encoder α).on buffer = (.ok a, buffer) :=
  rfl

theorem on_bind (e : Encoder α) (next : α → Encoder β) (buffer : List UInt8) :
    (e >>= next).on buffer =
      match e.on buffer with
      | (.ok a, rest) => (next a).on rest
      | (.error stop, rest) => (.error stop, rest) := by
  rw [on, ExceptT.run_bind, StateT.run_bind]
  change (do let p ← e.on buffer; _ : Id _) = _
  cases e.on buffer with
  | mk result rest => cases result <;> rfl

end Encoder

end Wire

end WalletConsent
