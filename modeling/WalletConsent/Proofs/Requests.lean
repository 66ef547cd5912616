import WalletConsent.Proofs.Scenes
import WalletConsent.Request.Flow

/-!
From a request to its flow in three steps: the policy must not deny it, the parts to be shown are
collected (an address may have to be derived first), and a flow is made of them under the policy.
Every outcome of a policy is one that the flow of its request takes, and a warning of the policy is
a warning on the first screen.
-/

set_option autoImplicit false

namespace WalletConsent

theorem bind_eq_ok_iff {α β : Type} {x : Except Fault α} {f : α → Except Fault β} {b : β} :
    (x >>= f) = .ok b ↔ ∃ a, x = .ok a ∧ f a = .ok b := by
  cases x with
  | error fault => simp [bind, Except.bind]
  | ok a => simp [bind, Except.bind]

namespace Request

/-- What the user is asked about, if the request needs consent at all. -/
def content? (derive : Deriver) : Request → Except Fault (Option Flow.Content)
  | keyBatch count => .ok (some (.keyBatch count))
  | keyExport path => .ok (some (.keyExport path))
  | deriveAddress mode spending staking =>
    (fun raw => some (.deriveAddress mode spending staking raw)) <$> derive spending staking
  | txOutput amount flags address =>
    .ok (some
      (if flags.collateral then .collateral amount address.bytes
      else .output amount address.bytes
        (Address.paysScript address.bytes && !flags.carriesDatum)))
  | changeOutput amount flags path staking =>
    .ok (some (.changeOutput amount path staking none flags.carriesDatum))
  | txFee fee => .ok (some (.fee fee))
  | witness path => .ok (some (.witness path))
  | txInit .. | txInput _ | attestUtxo _ => .ok none

/-- The fault in the derivation of the address to be shown, if there is one: that of the deriver, or
a length that no address has. -/
def derivationFault? (derive : Deriver) : Request → Option Fault
  | deriveAddress _ spending staking =>
    match derive spending staking with
    | .error fault => some fault
    | .ok raw => if raw.length ≤ Address.maxLength then none else some .invalidLength
  | _ => none

/-- The address that the user is asked about, if there is one. -/
def address? (derive : Deriver) : Request → Option (List UInt8)
  | deriveAddress _ spending staking => (derive spending staking).toOption
  | txOutput _ _ address => some address.bytes
  | _ => none

theorem flow_eq (r : Request) (ctx : Option TxContext) (check : AddressCheck) (derive : Deriver) :
    r.flow ctx check derive = (do
      let policy ← (r.policy ctx check).check
      match ← r.content? derive with
      | none => return none
      | some content => some <$> Flow.of policy content) := by
  unfold flow
  congr 1
  funext policy
  cases r with
  | deriveAddress mode spending staking =>
    dsimp only [content?]
    cases derive spending staking <;> rfl
  | txOutput amount flags address =>
    dsimp only [content?]
    cases flags.collateral <;> rfl
  | _ => rfl

section

variable {r : Request} {ctx : Option TxContext} {check : AddressCheck} {derive : Deriver}

theorem flow_of_deny (denied : r.policy ctx check = .deny) :
    r.flow ctx check derive = .error .policyDenied := by
  rw [flow_eq, denied]
  rfl

theorem flow_of_error {fault : Fault} (admitted : r.policy ctx check ≠ .deny)
    (failed : r.content? derive = .error fault) : r.flow ctx check derive = .error fault := by
  rw [flow_eq, Policy.check_of_ne_deny admitted, failed]
  rfl

theorem flow_of_no_content (admitted : r.policy ctx check ≠ .deny)
    (silent : r.content? derive = .ok none) : r.flow ctx check derive = .ok none := by
  rw [flow_eq, Policy.check_of_ne_deny admitted, silent]
  rfl

theorem flow_of_content {content : Flow.Content} (admitted : r.policy ctx check ≠ .deny)
    (collected : r.content? derive = .ok (some content)) :
    r.flow ctx check derive = some <$> Flow.of (r.policy ctx check) content := by
  rw [flow_eq, Policy.check_of_ne_deny admitted, collected]
  rfl

/-- A request without a flow has nothing to ask about. -/
theorem content?_of_no_flow (asked : r.flow ctx check derive = .ok none) :
    r.content? derive = .ok none := by
  rw [flow_eq] at asked
  obtain ⟨policy, -, asked⟩ := bind_eq_ok_iff.mp asked
  obtain ⟨content, collected, asked⟩ := bind_eq_ok_iff.mp asked
  cases content with
  | none => exact collected
  | some content =>
    cases built : Flow.of policy content <;> simp [built, Functor.map, Except.map] at asked

theorem content?_deriveAddress {mode : AddressMode} {spending : Path} {staking : Option Path}
    {content : Flow.Content}
    (collected : (deriveAddress mode spending staking).content? derive = .ok (some content)) :
    ∃ raw, derive spending staking = .ok raw ∧
      content = .deriveAddress mode spending staking raw := by
  cases derived : derive spending staking with
  | error fault => simp [content?, derived, Functor.map, Except.map] at collected
  | ok raw =>
    refine ⟨raw, rfl, ?_⟩
    simpa [content?, derived, Functor.map, Except.map, eq_comm] using collected

/-- The derivation of an address always has something to show. -/
theorem content?_deriveAddress_ne (mode : AddressMode) (spending : Path) (staking : Option Path) :
    (deriveAddress mode spending staking).content? derive ≠ .ok none := by
  intro silent
  cases derived : derive spending staking <;> rw [content?, derived] at silent <;> cases silent

theorem derivationFault?_of_error {fault : Fault} (failed : r.content? derive = .error fault) :
    r.derivationFault? derive = some fault := by
  cases r with
  | deriveAddress mode spending staking =>
    cases derived : derive spending staking with
    | error fault' =>
      rw [content?, derived] at failed
      cases failed
      rw [derivationFault?, derived]
    | ok raw =>
      rw [content?, derived] at failed
      cases failed
  | _ => cases failed

theorem derivationFault?_of_no_content (silent : r.content? derive = .ok none) :
    r.derivationFault? derive = none := by
  cases r with
  | deriveAddress mode spending staking =>
    exact absurd silent (content?_deriveAddress_ne mode spending staking)
  | _ => rfl

theorem policy_of_no_content (silent : r.content? derive = .ok none) :
    r.policy ctx check = .allow := by
  cases r with
  | txInit | txInput | attestUtxo => rfl
  | deriveAddress mode spending staking =>
    exact absurd silent (content?_deriveAddress_ne mode spending staking)
  | keyBatch | keyExport | txOutput | changeOutput | txFee | witness => cases silent

theorem derivationFault?_of_ne (other : r.kind ≠ .deriveAddress) :
    r.derivationFault? derive = none := by
  cases r with
  | deriveAddress => contradiction
  | _ => rfl

/-- Only a derived address may be too long for its flow. -/
theorem derivationFault?_of_content {content : Flow.Content}
    (collected : r.content? derive = .ok (some content)) :
    r.derivationFault? derive = if content.fits then none else some .invalidLength := by
  cases r with
  | deriveAddress mode spending staking =>
    obtain ⟨raw, derived, rfl⟩ := content?_deriveAddress collected
    simp [derivationFault?, derived, Flow.Content.fits]
  | txOutput amount flags address =>
    have short := address.length_le
    cases collected
    cases flags.collateral <;> simp [derivationFault?, Flow.Content.fits, short]
  | keyBatch | keyExport | changeOutput | txFee | witness =>
    cases collected
    rfl
  | txInit | txInput | attestUtxo => cases collected

theorem address?_of_content {content : Flow.Content}
    (collected : r.content? derive = .ok (some content)) :
    content.address? = r.address? derive := by
  cases r with
  | deriveAddress mode spending staking =>
    obtain ⟨raw, derived, rfl⟩ := content?_deriveAddress collected
    rw [address?, derived]
    rfl
  | txOutput amount flags address =>
    cases collected
    cases flags.collateral <;> rfl
  | keyBatch | keyExport | changeOutput | txFee | witness =>
    cases collected
    rfl
  | txInit | txInput | attestUtxo => cases collected

/-- Only the derivation of an address is merely presented. -/
theorem policy_ne_present (other : r.kind ≠ .deriveAddress) : r.policy ctx check ≠ .present := by
  cases r <;> simp only [policy, Policy.keyBatch, Policy.keyExport, Policy.silent,
    Policy.rawOutput, Policy.changeOutput, Policy.txFee, Policy.witness] <;> grind [Request.kind]

/-- Change that is neither denied nor allowed is warned of. -/
theorem policy_eq_warn (change : r.kind = .changeOutput) (admitted : r.policy ctx check ≠ .deny)
    (asked : r.policy ctx check ≠ .allow) : r.policy ctx check = .warn := by
  cases r with
  | changeOutput amount flags path staking =>
    simp only [policy, Policy.changeOutput] at *
    grind
  | _ => cases change

/-- The outcome of the policy is one that the flow of the request takes. -/
theorem exists_entry {content : Flow.Content} (admitted : r.policy ctx check ≠ .deny)
    (collected : r.content? derive = .ok (some content)) :
    ∃ entry, content.entry? (r.policy ctx check) = some entry := by
  by_cases derives : r.kind = .deriveAddress
  · cases r with
    | deriveAddress mode spending staking =>
      obtain ⟨raw, -, rfl⟩ := content?_deriveAddress collected
      cases taken : policy ctx check (.deriveAddress mode spending staking) with
      | deny => exact absurd taken admitted
      | _ => exact ⟨_, rfl⟩
    | _ => contradiction
  · have asked : r.policy ctx check ≠ .present := policy_ne_present derives
    cases taken : r.policy ctx check with
    | deny => exact absurd taken admitted
    | present => exact absurd taken asked
    | allow => exact ⟨_, rfl⟩
    | prompt | warn => cases content <;> exact ⟨_, rfl⟩

/-- What the policy warns of opens with a warning. -/
theorem scenes_of_warn {content : Flow.Content} (warned : r.policy ctx check = .warn)
    (collected : r.content? derive = .ok (some content)) :
    content.entry? .warn = some 0 ∧ ∃ stage message later,
      content.scenes .warn = ⟨stage, .item (.ok (.warning message))⟩ :: later := by
  cases r with
  | keyExport path =>
    cases collected
    exact ⟨rfl, _, _, _, rfl⟩
  | deriveAddress mode spending staking =>
    obtain ⟨raw, -, rfl⟩ := content?_deriveAddress collected
    exact ⟨rfl, _, _, _, rfl⟩
  | changeOutput amount flags path staking =>
    cases collected
    exact ⟨rfl, _, _, _, rfl⟩
  | witness path =>
    cases collected
    exact ⟨rfl, _, _, _, rfl⟩
  | keyBatch | txOutput | txFee | txInit | txInput | attestUtxo =>
    simp only [policy, Policy.keyBatch, Policy.rawOutput, Policy.txFee, Policy.silent] at warned
    grind

end

end Request

end WalletConsent
