/-!
Why consent to a request fails. A refusal by policy and a refusal by the user are faults of their
own; the rest are mistakes in the request or in the order of calls. Bytes that are no request, and
parts too long for one, have faults apart from these.
-/

set_option autoImplicit false

namespace WalletConsent

inductive Fault
  | malformedInput
  | policyDenied
  | userRejected
  | unexpectedState
  | invalidLength
  | encodingFailed
  deriving DecidableEq

namespace Fault

/-- The number reported to the host. -/
def code : Fault → UInt8
  | malformedInput => 0
  | policyDenied => 1
  | userRejected => 2
  | unexpectedState => 3
  | invalidLength => 4
  | encodingFailed => 5

def message : Fault → String
  | malformedInput => "malformed input"
  | policyDenied => "rejected by security policy"
  | userRejected => "rejected by user"
  | unexpectedState => "unexpected flow state"
  | invalidLength => "invalid argument length"
  | encodingFailed => "message encoding failed"

end Fault

inductive WireFault
  | invalidLength
  | invalidEncoding
  deriving DecidableEq

end WalletConsent
