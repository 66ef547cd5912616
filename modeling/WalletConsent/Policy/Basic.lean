import WalletConsent.Fault

/-!
How far the user is involved in the answer to a request. `deny` is for requests that make no sense
for this wallet; a request that makes sense but is unusual is let through behind a warning.
-/

set_option autoImplicit false

namespace WalletConsent

inductive Policy
  | allow
  | deny
  /-- Ask, then respond. -/
  | prompt
  /-- Warn of something unusual, then ask. -/
  | warn
  /-- Show the result, then respond. -/
  | present
  deriving DecidableEq

namespace Policy

def code : Policy → UInt8
  | allow => 1
  | deny => 2
  | prompt => 3
  | warn => 4
  | present => 5

def all : List Policy := [allow, deny, prompt, warn, present]

def ofCode? (code : UInt8) : Option Policy :=
  all.find? fun p => p.code = code

@[simp]
theorem ofCode?_code (p : Policy) : ofCode? p.code = some p := by
  cases p <;> rfl

def isInteractive : Policy → Bool
  | allow | deny => false
  | prompt | warn | present => true

def check : Policy → Except Fault Policy
  | deny => .error .policyDenied
  | p => .ok p

end Policy

/-- What a transaction in progress fixes for the requests that belong to it. -/
structure TxContext where
  account : UInt32
  /-- Witnesses still expected. -/
  witnesses : UInt16
  deriving DecidableEq

end WalletConsent
