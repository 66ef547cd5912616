import WalletConsent.Proofs.DecisionTable

/-!
The accounts of what is allowed in silence. Each rule bounds the account in a way of its own: an
address through the ordinary paths, a key of the transaction through the rule for witnesses, change
only through its staking key. Change without a staking key is not bounded at all. It has to be of
the account being signed for, and that is whatever account the transaction has been announced with.
-/

set_option autoImplicit false

namespace WalletConsent

open Segment (hardenedFlag)

/-- The paths that a request carries. -/
def Request.paths : Request → List Path
  | keyExport path | witness path => [path]
  | deriveAddress _ path staking | changeOutput _ _ path staking => path :: staking.toList
  | keyBatch .. | txInit .. | txInput .. | txOutput .. | txFee .. | attestUtxo .. => []

namespace Path

variable {p : Path} {a : UInt32}

/-- A path to something of a reasonable account. -/
def IsReasonable (p : Path) : Prop :=
  ∃ a, p.account? = some a ∧ a < accountLimit

theorem StakingOf.isReasonable (staking : p.StakingOf a) : p.IsReasonable :=
  ⟨a, staking.account?_eq, staking.1⟩

theorem OrdinaryOf.isReasonable (ordinary : p.OrdinaryOf a) : p.IsReasonable := by
  have account := ordinary.account?_eq
  rcases ordinary with ⟨reasonable, -⟩ | staking
  · exact ⟨a, account, reasonable⟩
  · exact staking.isReasonable

end Path

namespace Policy

variable {ctx : Option TxContext} {path spending p : Path} {staking : Option Path}

theorem OwnAddress.isReasonable (own : OwnAddress spending staking)
    (carried : p ∈ spending :: staking.toList) : p.IsReasonable := by
  obtain ⟨a, ordinary, staked⟩ := own
  rcases List.mem_cons.mp carried with rfl | carried
  · exact ordinary.isReasonable
  · exact (staked p (Option.mem_toList.mp carried)).isReasonable

theorem OwnWitness.isReasonable (own : OwnWitness ctx path) : path.IsReasonable := by
  obtain ⟨a, witnesses, chain, i, later, -, reasonable, -, segments⟩ := own
  have small : a < hardenedFlag := UInt32.lt_trans reasonable (by decide)
  exact ⟨a, Path.account?_eq_of_third small segments, reasonable⟩

/-- Change is of the account being signed for. -/
theorem OwnChange.account?_eq (own : OwnChange ctx path staking) :
    ∃ tx, ctx = some tx ∧ path.account? = some tx.account := by
  obtain ⟨a, witnesses, i, announced, small, -, segments, -⟩ := own
  exact ⟨_, announced, Path.account?_eq_of_third small segments⟩

/-- A staking key bounds the account of the change that comes with it. -/
theorem OwnChange.isReasonable {s : Path} (own : OwnChange ctx path (some s))
    (carried : p ∈ path :: (some s).toList) : p.IsReasonable := by
  obtain ⟨a, witnesses, i, -, small, -, segments, staked⟩ := own
  have key := staked s rfl
  rcases List.mem_cons.mp carried with rfl | carried
  · exact ⟨a, Path.account?_eq_of_third small segments, key.1⟩
  · cases List.mem_singleton.mp carried
    exact key.isReasonable

end Policy

namespace Request

variable {ctx : Option TxContext} {check : AddressCheck} {r : Request}

/-- Change that names no staking key. -/
def IsUnstakedChange : Request → Prop
  | changeOutput _ _ _ none => True
  | _ => False

/-- Every path of a request allowed in silence is to something of a reasonable account, save that of
change without a staking key: its account is the one being signed for. -/
theorem isReasonable_of_allow (allowed : r.policy ctx check = .allow) {p : Path}
    (carried : p ∈ r.paths) :
    p.IsReasonable ∨
      r.IsUnstakedChange ∧ ∃ tx, ctx = some tx ∧ p.account? = some tx.account := by
  obtain ⟨decided, row⟩ := exists_decided ctx check r
  cases (policy_of_decided row).symm.trans allowed
  cases row with
  | oneKey | init | input | attest => cases carried
  | ownAddressReturned own => exact .inl (own.isReasonable carried)
  | ownWitness own =>
    cases List.mem_singleton.mp carried
    exact .inl own.isReasonable
  | @ownChange amount flags path staking own =>
    cases staking with
    | some s => exact .inl (own.isReasonable carried)
    | none =>
      cases List.mem_singleton.mp carried
      exact .inr ⟨trivial, own.account?_eq⟩

/-- Change of the last reasonable account, with its staking key. -/
theorem isReasonable_of_allow_of_stakedChange :
    let ctx : Option TxContext := some ⟨99, 1⟩
    let path : Path := ⟨[0x8000002c, 0x80000717, 0x80000063, 1, 7], by decide⟩
    let staking : Path := ⟨[0x8000002c, 0x80000717, 0x80000063, 2, 0], by decide⟩
    let r : Request := .changeOutput 1 ⟨false, false, false, false⟩ path (some staking)
    r.policy ctx Address.isWellFormed = .allow ∧
      ∀ p ∈ r.paths, p.IsReasonable ∨
        r.IsUnstakedChange ∧ ∃ tx, ctx = some tx ∧ p.account? = some tx.account := by
  intro ctx path staking r
  have allowed : r.policy ctx Address.isWellFormed = .allow := rfl
  exact ⟨allowed, fun _ carried => isReasonable_of_allow allowed carried⟩

/-- Whatever the account being signed for, its change is allowed if no staking key comes with it. -/
theorem allow_of_unstakedChange {a i : UInt32} {witnesses : UInt16} {amount : UInt64}
    {flags : OutputFlags} {path : Path} (small : a < hardenedFlag) (index : i < Path.addressLimit)
    (segments :
      path.segments = [44 + hardenedFlag, 1815 + hardenedFlag, a + hardenedFlag, 1, i]) :
    (changeOutput amount flags path none).policy (some ⟨a, witnesses⟩) check = .allow := by
  apply policy_of_decided
  apply Decided.ownChange
  refine ⟨a, witnesses, i, rfl, small, index, segments, ?_⟩
  intro s some
  cases some

/-- Change of the first account that is not reasonable, while that account is being signed for. -/
theorem allow_of_account_hundred :
    let path : Path := ⟨[0x8000002c, 0x80000717, 0x80000064, 1, 0], by decide⟩
    let r : Request := .changeOutput 1 ⟨false, false, false, false⟩ path none
    r.policy (some ⟨100, 1⟩) Address.isWellFormed = .allow ∧ path ∈ r.paths ∧
      path.account? = some 100 ∧ ¬ path.IsReasonable := by
  intro path r
  have account : path.account? = some 100 := rfl
  have allowed : r.policy (some ⟨100, 1⟩) Address.isWellFormed = .allow :=
    allow_of_unstakedChange (by decide) (by decide) rfl
  refine ⟨allowed, List.mem_singleton.mpr rfl, account, ?_⟩
  rintro ⟨a, same, reasonable⟩
  cases account.symm.trans same
  exact absurd reasonable (by decide)

end Request

end WalletConsent
