import WalletConsent.Fault

/-!
Derivation paths of the wallet tree: purpose 44', coin type 1815', an account, a chain and an
address index. A segment with its top bit set is hardened; its index is the rest of the word.

The parts of a path are read by position alone. The account counts only when hardened and the
address index only when soft. The chain is the whole fourth word, so a hardened word names none.
-/

set_option autoImplicit false

namespace WalletConsent

abbrev Segment := UInt32

namespace Segment

def hardenedFlag : UInt32 := 0x80000000

def isHardened (s : Segment) : Bool := hardenedFlag ≤ s

def harden (s : Segment) : Segment := s ||| hardenedFlag

/-- The number without the hardened flag. -/
def index (s : Segment) : UInt32 := if isHardened s then s - hardenedFlag else s

end Segment

inductive Chain
  | external
  | internal
  | staking
  deriving DecidableEq

namespace Chain

def code : Chain → UInt32
  | external => 0
  | internal => 1
  | staking => 2

def ofCode? (code : UInt32) : Option Chain :=
  if code = 0 then some external
  else if code = 1 then some internal
  else if code = 2 then some staking
  else none

theorem ofCode?_eq_some_iff {code : UInt32} {c : Chain} :
    ofCode? code = some c ↔ code = c.code := by
  cases c <;> grind [ofCode?, Chain.code]

end Chain

def Path.maxLength : Nat := 10

structure Path where
  segments : List Segment
  length_le : segments.length ≤ Path.maxLength
  deriving DecidableEq

namespace Path

def of (segments : List Segment) : Except WireFault Path :=
  if h : segments.length ≤ maxLength then .ok ⟨segments, h⟩ else .error .invalidLength

def purpose : UInt32 := 44

/-- The registered coin type of ADA. -/
def coinType : UInt32 := 1815

/-- Accounts from here on are unusual. -/
def accountLimit : UInt32 := 100

/-- Address indices from here on are unusual. -/
def addressLimit : UInt32 := 1000000

def length (p : Path) : Nat := p.segments.length

def get? (p : Path) (i : Nat) : Option Segment := p.segments[i]?

/-- The path lies under some account of the wallet. -/
def hasWalletRoot (p : Path) : Bool :=
  match p.segments with
  | first :: second :: third :: _ =>
    first == Segment.harden purpose && second == Segment.harden coinType && Segment.isHardened third
  | _ => false

def containsAccount (p : Path) : Bool := 2 < p.length

def containsChain (p : Path) : Bool := 3 < p.length

def containsAddress (p : Path) : Bool := 4 < p.length

def account? (p : Path) : Option UInt32 :=
  match p.get? 2 with
  | some s => if Segment.isHardened s then some (Segment.index s) else none
  | none => none

def chain? (p : Path) : Option Chain := (p.get? 3).bind Chain.ofCode?

def address? (p : Path) : Option UInt32 :=
  match p.get? 4 with
  | some s => if Segment.isHardened s then none else some s
  | none => none

def hasAccount (p : Path) : Bool := p.account?.isSome

def hasReasonableAccount (p : Path) : Bool := p.account?.any (· < accountLimit)

def hasChain (p : Path) : Bool := p.chain?.isSome

def hasReasonableAddress (p : Path) : Bool := p.address?.any (· < addressLimit)

theorem segments_injective {p q : Path} (same : p.segments = q.segments) : p = q := by
  cases p
  cases q
  cases same
  rfl

@[simp]
theorem of_segments (p : Path) : of p.segments = .ok p := by
  simp [of, p.length_le]

end Path

end WalletConsent
