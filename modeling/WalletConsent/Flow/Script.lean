import WalletConsent.Amount
import WalletConsent.Display.Basic
import WalletConsent.Flow.Content
import WalletConsent.Path.Text

/-!
The script of each flow: its scenes in the order in which they are shown. A scene shows one item,
shows an address piece by piece, or passes without showing anything. The policy outcome says at
which scene a flow enters its script, if it takes that outcome at all; the entry behind the last
scene goes straight to the response. Texts are checked when their scene comes, not before.
-/

set_option autoImplicit false

namespace WalletConsent

namespace Address

/-- Bytes of an address in one fact; in hexadecimal they fill its value. -/
def pieceLength : Nat := 64

def pieceCount (raw : List UInt8) : Nat := (raw.length + (pieceLength - 1)) / pieceLength

def piece? (raw : List UInt8) (n : Nat) : Option (List UInt8) :=
  if n < pieceCount raw then some ((raw.drop (pieceLength * n)).take pieceLength) else none

/-- A piece is numbered only when it is not the whole address. -/
def pieceLabel (label : String) (raw : List UInt8) (n : Nat) : String :=
  if 1 < pieceCount raw then
    label ++ " (" ++ toString (n + 1) ++ "/" ++ toString (pieceCount raw) ++ ")"
  else label

end Address

namespace Item

/-- The first piece of an address opens a page. -/
def piece? (label : String) (raw : List UInt8) (n : Nat) : Except Fault Item :=
  match Address.piece? raw n with
  | none => .error .invalidLength
  | some bytes => do
    let value ← Hex.text Fact.maxValueSize bytes
    if n = 0 then pageFact? (Address.pieceLabel label raw n) value
    else fact? (Address.pieceLabel label raw n) value

/-- The room set aside for an amount of ADA. -/
def adaRoom : Nat := 32

def ada? (label : String) (lovelace : UInt64) : Except Fault Item :=
  match Amount.ada? adaRoom lovelace with
  | some value => fact? label value
  | none => .error .encodingFailed

def path? (label : String) (path : Path) : Except Fault Item := fact? label (toString path)

def preview? (label : String) (p : Preview) : Except Fault Item :=
  fact? label (String.ofList p.text)

/-- The room set aside for a number of tokens. -/
def quantityRoom : Nat := 24

/-- A token goes by its policy id and its name. -/
def asset? (policyId : Octets 28) (name : List UInt8) : Except Fault Item :=
  fact? "Asset" (String.ofList (Hex.ofBytes policyId.bytes ++ '.' :: Hex.ofBytes name))

def datum? : Datum → Except Fault Item
  | .hash hash => do fact? "Datum hash" (← Hex.text Fact.maxValueSize hash.bytes)
  | .inline preview => preview? "Inline datum" preview

end Item

namespace Flow

inductive Stage
  | warning
  | prompt
  | display
  | confirm
  | path
  | staking
  | address
  | datumWarning
  | amount
  | begin
  | paymentPath
  | stakingInfo
  | intro
  | name
  | finalConfirm
  | respond
  deriving DecidableEq

inductive Body
  | item (item : Except Fault Item)
  | address (label : String) (raw : List UInt8)
  | pass

structure Scene where
  stage : Stage
  body : Body

/-- The stages of a flow before its response. -/
def Kind.stages : Kind → List Stage
  | keyExport => [.warning, .prompt, .display, .confirm]
  | keyBatch => [.confirm]
  | deriveAddress => [.warning, .path, .staking, .address, .confirm]
  | output => [.datumWarning, .address, .amount]
  | changeOutput => [.begin, .datumWarning, .paymentPath, .stakingInfo, .address, .amount]
  | collateral => [.intro, .address, .amount]
  | token => [.name, .amount]
  | datum => [.display]
  | script => [.display]
  | outputConfirm => [.finalConfirm]
  | fee => [.display]
  | witness => [.warning, .display]
  | txConfirm => [.confirm]

namespace Content

/-- Only a change output looks at its policy again: an unusual one opens with a warning. -/
def scenes (policy : Policy) : Content → List Scene
  | keyExport path =>
    [⟨.warning, .item (Item.warning? "Unusual request, proceed with care")⟩,
      ⟨.prompt, .item (Item.prompt? "Export public key" "")⟩,
      ⟨.display, .item (Item.path? "Public key" path)⟩,
      ⟨.confirm, .item (Item.confirm? "Confirm export" "" .action)⟩]
  | keyBatch count =>
    [⟨.confirm, .item (Item.confirm? "Export public keys" (toString count ++ " keys") .action)⟩]
  | deriveAddress mode spending staking raw =>
    [⟨.warning, .item (Item.warning? "Unusual address path, proceed with care")⟩,
      ⟨.path, .item (Item.path? "Address path" spending)⟩,
      ⟨.staking, staking.elim .pass fun path => .item (Item.path? "Staking path" path)⟩,
      ⟨.address, .address "Address" raw⟩,
      ⟨.confirm, .item
        (match mode with
        | .onDevice => Item.confirm? "Verify address" "" .address
        | .toHost => Item.confirm? "Export address" "" .action)⟩]
  | output amount raw _ =>
    [⟨.datumWarning, .item (Item.warning? "Script address without datum")⟩,
      ⟨.address, .address "Send to address" raw⟩,
      ⟨.amount, .item (Item.ada? "Amount" amount)⟩]
  | changeOutput amount path staking raw carriesDatum =>
    [⟨.begin, .item
        (if policy = .warn then Item.warning? "Change output with unusual path"
        else Item.prompt? "Review change output" "")⟩,
      ⟨.datumWarning,
        if carriesDatum then .item (Item.warning? "Change output carries a datum") else .pass⟩,
      ⟨.paymentPath, .item (Item.path? "Payment path" path)⟩,
      ⟨.stakingInfo, .item
        (match staking with
        | some path => Item.path? "Staking path" path
        | none => Item.fact? "Staking" "none")⟩,
      ⟨.address, raw.elim .pass (.address "Address")⟩,
      ⟨.amount, .item (Item.ada? "Amount" amount)⟩]
  | collateral amount raw =>
    [⟨.intro, .item (Item.prompt? "Review collateral return" "")⟩,
      ⟨.address, .address "Collateral return" raw⟩,
      ⟨.amount, .item (Item.ada? "Amount" amount)⟩]
  | token policyId name quantity =>
    [⟨.name, .item (Item.asset? policyId name)⟩,
      ⟨.amount, .item (Item.fact? "Quantity" (Amount.quantity Item.quantityRoom quantity))⟩]
  | datum d => [⟨.display, .item (Item.datum? d)⟩]
  | script preview => [⟨.display, .item (Item.preview? "Reference script" preview)⟩]
  | outputConfirm => [⟨.finalConfirm, .item (Item.confirm? "Confirm output" "" .action)⟩]
  | fee lovelace => [⟨.display, .item (Item.ada? "Transaction fee" lovelace)⟩]
  | witness path =>
    [⟨.warning, .item (Item.warning? "Unusual witness requested")⟩,
      ⟨.display, .item (Item.path? "Witness path" path)⟩]
  | txConfirm => [⟨.confirm, .item (Item.confirm? "Sign transaction" "" .action)⟩]

theorem map_stage_scenes (policy : Policy) (c : Content) :
    (c.scenes policy).map Scene.stage = c.kind.stages := by
  cases c <;> rfl

theorem length_scenes (policy : Policy) (c : Content) :
    (c.scenes policy).length = c.kind.stages.length := by
  rw [← map_stage_scenes policy c, List.length_map]

/-- The place in the script where a policy outcome enters; none for an outcome not taken. -/
def entry? (c : Content) (policy : Policy) : Option Nat :=
  match policy, c with
  | .deny, _ => none
  | .allow, _ => some c.kind.stages.length
  | .warn, output _ _ bare | .prompt, output _ _ bare => some (if bare then 0 else 1)
  | .warn, _ => some 0
  | .prompt, keyExport _ | .prompt, deriveAddress .. | .prompt, witness _ => some 1
  | .prompt, _ => some 0
  | .present, keyExport _ => some 2
  | .present, deriveAddress .. | .present, witness _ => some 1
  | .present, _ => none

end Content

end Flow

end WalletConsent
