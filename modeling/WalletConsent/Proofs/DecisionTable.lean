import WalletConsent.Policy.Rules

/-!
The policy as a decision table over the raw words of a path. A row names the words that it asks
for; the rows of one kind of request exclude each other and leave nothing out, so the policy is the
one function that the table allows (`Request.policy_eq_iff`).

A hardened word is written as its number with the flag added; a plain number is a soft word.
-/

set_option autoImplicit false

namespace WalletConsent

open Segment (hardenedFlag)

theorem Segment.isHardened_iff {s : Segment} : isHardened s = true ↔ hardenedFlag ≤ s :=
  decide_eq_true_iff

/-- A hardened word is its index with the flag added. -/
theorem Segment.index_eq_iff {s a : UInt32} :
    isHardened s = true ∧ index s = a ↔ a < hardenedFlag ∧ s = a + hardenedFlag := by
  have flag : hardenedFlag.toNat = 2 ^ 31 := rfl
  have range := s.toNat_lt
  constructor
  · rintro ⟨hardened, rfl⟩
    have floor := UInt32.le_iff_toNat_le.mp (isHardened_iff.mp hardened)
    have index_toNat : (index s).toNat = s.toNat - 2 ^ 31 := by
      rw [index, if_pos hardened, UInt32.toNat_sub_of_le _ _ (isHardened_iff.mp hardened), flag]
    constructor
    · apply UInt32.lt_iff_toNat_lt.mpr
      omega
    · apply UInt32.toNat_inj.mp
      rw [UInt32.toNat_add, index_toNat, flag]
      omega
  · rintro ⟨small, rfl⟩
    have below := UInt32.lt_iff_toNat_lt.mp small
    have sum : (a + hardenedFlag).toNat = a.toNat + 2 ^ 31 := by
      rw [UInt32.toNat_add, flag]
      omega
    have hardened : hardenedFlag ≤ a + hardenedFlag := by
      apply UInt32.le_iff_toNat_le.mpr
      omega
    refine ⟨isHardened_iff.mpr hardened, ?_⟩
    apply UInt32.toNat_inj.mp
    rw [index, if_pos (isHardened_iff.mpr hardened), UInt32.toNat_sub_of_le _ _ hardened]
    omega

namespace Path

/-- The words 44' and 1815', and a hardened word behind them. -/
def Rooted (p : Path) : Prop :=
  ∃ account later,
    p.segments = (44 + hardenedFlag) :: (1815 + hardenedFlag) :: account :: later ∧
      hardenedFlag ≤ account

/-- A receive or change address of an account, below the limit for addresses. -/
def PaymentOf (a : UInt32) (p : Path) : Prop :=
  ∃ chain i : UInt32, (chain = 0 ∨ chain = 1) ∧ i < 1000000 ∧
    p.segments = [44 + hardenedFlag, 1815 + hardenedFlag, a + hardenedFlag, chain, i]

/-- The staking key of a reasonable account. -/
def StakingOf (a : UInt32) (p : Path) : Prop :=
  a < 100 ∧ p.segments = [44 + hardenedFlag, 1815 + hardenedFlag, a + hardenedFlag, 2, 0]

/-- An address that a reasonable account derives for itself. -/
def OrdinaryOf (a : UInt32) (p : Path) : Prop :=
  a < 100 ∧ p.PaymentOf a ∨ p.StakingOf a

variable {p : Path} {a : UInt32}

theorem hasWalletRoot_iff : p.hasWalletRoot = true ↔ p.Rooted := by
  have purpose : Segment.harden purpose = 44 + hardenedFlag := by decide
  have coinType : Segment.harden coinType = 1815 + hardenedFlag := by decide
  unfold hasWalletRoot Rooted
  split
  · rename_i first second third later segments
    rw [segments, purpose, coinType]
    simp [Segment.isHardened_iff, and_assoc]
  · rename_i short
    constructor
    · intro rooted
      cases rooted
    · rintro ⟨account, later, segments, -⟩
      exact absurd segments (short _ _ _ _)

theorem hasWalletRoot_eq_false (foreign : ¬ p.Rooted) : p.hasWalletRoot = false :=
  Bool.eq_false_iff.mpr (mt hasWalletRoot_iff.mp foreign)

theorem account?_eq_some_iff :
    p.account? = some a ↔ a < hardenedFlag ∧ p.get? 2 = some (a + hardenedFlag) := by
  unfold account?
  cases third : p.get? 2 with
  | none => simp
  | some s =>
    have index := @Segment.index_eq_iff s a
    dsimp only
    by_cases hardened : Segment.isHardened s = true
    · rw [if_pos hardened]
      simpa [hardened] using index
    · rw [if_neg hardened]
      simpa [hardened] using index

theorem chain?_eq_some_iff {c : Chain} : p.chain? = some c ↔ p.get? 3 = some c.code := by
  unfold chain?
  cases p.get? 3 with
  | none => simp
  | some s => simp [Chain.ofCode?_eq_some_iff]

theorem hasReasonableAccount_iff :
    p.hasReasonableAccount = true ↔ ∃ a < 100, p.get? 2 = some (a + hardenedFlag) := by
  rw [hasReasonableAccount, Option.any_eq_true]
  constructor
  · rintro ⟨a, account, reasonable⟩
    exact ⟨a, of_decide_eq_true reasonable, (account?_eq_some_iff.mp account).2⟩
  · rintro ⟨a, reasonable, third⟩
    have small : a < hardenedFlag := UInt32.lt_trans reasonable (by decide)
    exact ⟨a, account?_eq_some_iff.mpr ⟨small, third⟩, decide_eq_true reasonable⟩

theorem hasReasonableAddress_iff :
    p.hasReasonableAddress = true ↔ ∃ i < 1000000, p.get? 4 = some i := by
  rw [hasReasonableAddress, Option.any_eq_true]
  unfold address?
  constructor
  · rintro ⟨i, address, reasonable⟩
    cases fifth : p.get? 4 with
    | none =>
      rw [fifth] at address
      cases address
    | some s =>
      rw [fifth] at address
      dsimp only at address
      split at address
      · cases address
      · cases address
        exact ⟨_, of_decide_eq_true reasonable, rfl⟩
  · rintro ⟨i, reasonable, fifth⟩
    have soft : ¬ Segment.isHardened i = true := by
      rw [Segment.isHardened_iff, UInt32.not_le]
      exact UInt32.lt_trans reasonable (by decide)
    refine ⟨i, ?_, decide_eq_true reasonable⟩
    rw [fifth]
    exact if_neg soft

/-- Below the root, a path is known by its length and the words behind the first two. -/
theorem segments_eq_three_iff (rooted : p.Rooted) {x : Segment} :
    p.segments = [44 + hardenedFlag, 1815 + hardenedFlag, x] ↔
      p.length = 3 ∧ p.get? 2 = some x := by
  obtain ⟨account, later, segments, -⟩ := rooted
  rw [length, get?, segments]
  cases later <;> simp

theorem segments_eq_five_iff (rooted : p.Rooted) {x y z : Segment} :
    p.segments = [44 + hardenedFlag, 1815 + hardenedFlag, x, y, z] ↔
      p.length = 5 ∧ p.get? 2 = some x ∧ p.get? 3 = some y ∧ p.get? 4 = some z := by
  obtain ⟨account, later, segments, -⟩ := rooted
  rw [length, get?, get?, get?, segments]
  rcases later with _ | ⟨fourth, _ | ⟨fifth, _ | ⟨sixth, later⟩⟩⟩ <;> simp

theorem exists_segments_eq_iff (rooted : p.Rooted) {x y z : Segment} :
    (∃ later, p.segments =
        (44 + hardenedFlag) :: (1815 + hardenedFlag) :: x :: y :: z :: later) ↔
      p.get? 2 = some x ∧ p.get? 3 = some y ∧ p.get? 4 = some z := by
  obtain ⟨account, later, segments, -⟩ := rooted
  rw [get?, get?, get?, segments]
  rcases later with _ | ⟨fourth, _ | ⟨fifth, later⟩⟩ <;> simp

theorem containsAddress_iff : p.containsAddress = true ↔ ∃ i, p.get? 4 = some i := by
  rw [containsAddress, decide_eq_true_eq, length, get?]
  rw [← Option.isSome_iff_exists, isSome_getElem?]

theorem isOrdinaryPayment_iff (rooted : p.Rooted) :
    p.isOrdinaryPayment = true ↔ ∃ a < 100, p.PaymentOf a := by
  simp only [isOrdinaryPayment, Bool.and_eq_true, Bool.or_eq_true, beq_iff_eq,
    hasReasonableAccount_iff, hasReasonableAddress_iff, chain?_eq_some_iff, PaymentOf,
    segments_eq_five_iff rooted, Chain.code]
  constructor
  · rintro ⟨⟨⟨five, a, reasonable, third⟩, fourth | fourth⟩, i, small, fifth⟩
    · exact ⟨a, reasonable, 0, i, .inl rfl, small, five, third, fourth, fifth⟩
    · exact ⟨a, reasonable, 1, i, .inr rfl, small, five, third, fourth, fifth⟩
  · rintro ⟨a, reasonable, chain, i, rfl | rfl, small, five, third, fourth, fifth⟩
    · exact ⟨⟨⟨five, a, reasonable, third⟩, .inl fourth⟩, i, small, fifth⟩
    · exact ⟨⟨⟨five, a, reasonable, third⟩, .inr fourth⟩, i, small, fifth⟩

theorem isOrdinaryStaking_iff (rooted : p.Rooted) :
    p.isOrdinaryStaking = true ↔ ∃ a, p.StakingOf a := by
  simp only [isOrdinaryStaking, Bool.and_eq_true, beq_iff_eq, hasReasonableAccount_iff,
    chain?_eq_some_iff, StakingOf, segments_eq_five_iff rooted, Chain.code]
  constructor
  · rintro ⟨⟨⟨five, a, reasonable, third⟩, fourth⟩, fifth⟩
    exact ⟨a, reasonable, five, third, fourth, fifth⟩
  · rintro ⟨a, reasonable, five, third, fourth, fifth⟩
    exact ⟨⟨⟨five, a, reasonable, third⟩, fourth⟩, fifth⟩

/-- A path names one account. -/
theorem account?_eq_of_third {later : List Segment} (small : a < hardenedFlag) {s₀ s₁ : Segment}
    (segments : p.segments = s₀ :: s₁ :: (a + hardenedFlag) :: later) : p.account? = some a := by
  apply account?_eq_some_iff.mpr
  refine ⟨small, ?_⟩
  rw [get?, segments]
  rfl

theorem rooted_of_third {later : List Segment} (small : a < hardenedFlag)
    (segments : p.segments =
      (44 + hardenedFlag) :: (1815 + hardenedFlag) :: (a + hardenedFlag) :: later) : p.Rooted := by
  have hardened := (Segment.index_eq_iff.mpr ⟨small, rfl⟩).1
  exact ⟨_, later, segments, Segment.isHardened_iff.mp hardened⟩

theorem StakingOf.rooted (staking : p.StakingOf a) : p.Rooted :=
  rooted_of_third (UInt32.lt_trans staking.1 (by decide)) staking.2

theorem OrdinaryOf.rooted (ordinary : p.OrdinaryOf a) : p.Rooted := by
  rcases ordinary with ⟨reasonable, chain, i, -, -, segments⟩ | staking
  · exact rooted_of_third (UInt32.lt_trans reasonable (by decide)) segments
  · exact staking.rooted

theorem StakingOf.account?_eq (staking : p.StakingOf a) : p.account? = some a :=
  account?_eq_of_third (UInt32.lt_trans staking.1 (by decide)) staking.2

theorem OrdinaryOf.account?_eq (ordinary : p.OrdinaryOf a) : p.account? = some a := by
  rcases ordinary with ⟨reasonable, chain, i, -, -, segments⟩ | staking
  · exact account?_eq_of_third (UInt32.lt_trans reasonable (by decide)) segments
  · exact staking.account?_eq

theorem isStakingOf_iff (rooted : p.Rooted) :
    p.isStakingOf (some a) = true ↔ p.StakingOf a := by
  simp only [isStakingOf, Bool.and_eq_true, beq_iff_eq, isOrdinaryStaking_iff rooted]
  constructor
  · rintro ⟨⟨⟨b, staking⟩, -⟩, account⟩
    rw [staking.account?_eq] at account
    cases account
    exact staking
  · intro staking
    exact ⟨⟨⟨a, staking⟩, rfl⟩, staking.account?_eq⟩

theorem hasChain_iff :
    p.hasChain = true ↔ ∃ chain, (chain = 0 ∨ chain = 1 ∨ chain = 2) ∧ p.get? 3 = some chain := by
  rw [hasChain, Option.isSome_iff_exists]
  constructor
  · rintro ⟨c, named⟩
    refine ⟨c.code, ?_, chain?_eq_some_iff.mp named⟩
    cases c <;> decide
  · rintro ⟨chain, rfl | rfl | rfl, fourth⟩
    · exact ⟨.external, chain?_eq_some_iff.mpr fourth⟩
    · exact ⟨.internal, chain?_eq_some_iff.mpr fourth⟩
    · exact ⟨.staking, chain?_eq_some_iff.mpr fourth⟩

end Path

namespace Policy

/-- The paths of a request, both below the root. -/
def BothRooted (path : Path) (staking : Option Path) : Prop :=
  path.Rooted ∧ ∀ s, staking = some s → s.Rooted

/-- A key at the account level. -/
def AccountKey (path : Path) : Prop :=
  ∃ a : UInt32, a < 100 ∧
    path.segments = [44 + hardenedFlag, 1815 + hardenedFlag, a + hardenedFlag]

/-- An address of one account, with that account's staking key or none. -/
def OwnAddress (spending : Path) (staking : Option Path) : Prop :=
  ∃ a, spending.OrdinaryOf a ∧ ∀ s, staking = some s → s.StakingOf a

/-- A change address of the account being signed for, with that account's staking key or none. The
account is taken as it comes: only a staking key has to be that of a reasonable one. -/
def OwnChange (ctx : Option TxContext) (path : Path) (staking : Option Path) : Prop :=
  ∃ (a : UInt32) (witnesses : UInt16) (i : UInt32), ctx = some ⟨a, witnesses⟩ ∧
    a < hardenedFlag ∧ i < 1000000 ∧
    path.segments = [44 + hardenedFlag, 1815 + hardenedFlag, a + hardenedFlag, 1, i] ∧
    ∀ s, staking = some s → s.StakingOf a

/-- A key of the account being signed for, on a known chain; its address may be any, and more may
follow. -/
def OwnWitness (ctx : Option TxContext) (path : Path) : Prop :=
  ∃ (a : UInt32) (witnesses : UInt16) (chain i : UInt32) (later : List Segment),
    ctx = some ⟨a, witnesses⟩ ∧ a < 100 ∧ (chain = 0 ∨ chain = 1 ∨ chain = 2) ∧
    path.segments =
      (44 + hardenedFlag) :: (1815 + hardenedFlag) :: (a + hardenedFlag) :: chain :: i :: later

end Policy

open Policy in
/-- The rows of the table: request, and outcome. -/
inductive Request.Decided (ctx : Option TxContext) (check : AddressCheck) :
    Request → Policy → Prop
  | noKeys : Decided ctx check (.keyBatch 0) .deny
  | oneKey : Decided ctx check (.keyBatch 1) .allow
  | manyKeys {count : UInt32} (some : count ≠ 0) (more : count ≠ 1) :
      Decided ctx check (.keyBatch count) .prompt
  | foreignKey {path : Path} (foreign : ¬ path.Rooted) : Decided ctx check (.keyExport path) .deny
  | accountKey {path : Path} (level : AccountKey path) :
      Decided ctx check (.keyExport path) .prompt
  | otherKey {path : Path} (rooted : path.Rooted) (other : ¬ AccountKey path) :
      Decided ctx check (.keyExport path) .warn
  | foreignAddress {mode : AddressMode} {spending : Path} {staking : Option Path}
      (foreign : ¬ BothRooted spending staking) :
      Decided ctx check (.deriveAddress mode spending staking) .deny
  | ownAddressShown {spending : Path} {staking : Option Path} (own : OwnAddress spending staking) :
      Decided ctx check (.deriveAddress .onDevice spending staking) .present
  | ownAddressReturned {spending : Path} {staking : Option Path}
      (own : OwnAddress spending staking) :
      Decided ctx check (.deriveAddress .toHost spending staking) .allow
  | otherAddressShown {spending : Path} {staking : Option Path}
      (rooted : BothRooted spending staking) (other : ¬ OwnAddress spending staking) :
      Decided ctx check (.deriveAddress .onDevice spending staking) .warn
  | otherAddressReturned {spending : Path} {staking : Option Path}
      (rooted : BothRooted spending staking) (other : ¬ OwnAddress spending staking) :
      Decided ctx check (.deriveAddress .toHost spending staking) .prompt
  | foreignChange {amount : UInt64} {flags : OutputFlags} {path : Path} {staking : Option Path}
      (foreign : ¬ BothRooted path staking) :
      Decided ctx check (.changeOutput amount flags path staking) .deny
  | ownChange {amount : UInt64} {flags : OutputFlags} {path : Path} {staking : Option Path}
      (own : OwnChange ctx path staking) :
      Decided ctx check (.changeOutput amount flags path staking) .allow
  | otherChange {amount : UInt64} {flags : OutputFlags} {path : Path} {staking : Option Path}
      (rooted : BothRooted path staking) (other : ¬ OwnChange ctx path staking) :
      Decided ctx check (.changeOutput amount flags path staking) .warn
  | foreignWitness {path : Path} (foreign : ¬ path.Rooted) :
      Decided ctx check (.witness path) .deny
  | ownWitness {path : Path} (own : OwnWitness ctx path) : Decided ctx check (.witness path) .allow
  | otherWitness {path : Path} (rooted : path.Rooted) (other : ¬ OwnWitness ctx path) :
      Decided ctx check (.witness path) .warn
  | malformed {amount : UInt64} {flags : OutputFlags} {address : Address}
      (refused : check address.bytes = false) :
      Decided ctx check (.txOutput amount flags address) .deny
  | payment {amount : UInt64} {flags : OutputFlags} {address : Address}
      (checked : check address.bytes = true) :
      Decided ctx check (.txOutput amount flags address) .prompt
  | fee {fee : UInt64} : Decided ctx check (.txFee fee) .prompt
  | init {account : UInt32} {inputs outputs witnesses : UInt16} :
      Decided ctx check (.txInit account inputs outputs witnesses) .allow
  | input {utxo : UtxoRef} : Decided ctx check (.txInput utxo) .allow
  | attest {utxo : UtxoRef} : Decided ctx check (.attestUtxo utxo) .allow

namespace Policy

variable {ctx : Option TxContext} {path spending : Path} {staking : Option Path}

theorem rooted_iff : rooted path staking = true ↔ BothRooted path staking := by
  simp only [rooted, BothRooted, Bool.and_eq_true, Option.all_eq_true, Path.hasWalletRoot_iff]

theorem rooted_eq_false (foreign : ¬ BothRooted path staking) : rooted path staking = false :=
  Bool.eq_false_iff.mpr (mt rooted_iff.mp foreign)

theorem accountKey_iff (rooted : path.Rooted) :
    AccountKey path ↔ path.hasReasonableAccount = true ∧ path.containsChain = false := by
  have deep : 3 ≤ path.length := by
    obtain ⟨account, later, segments, -⟩ := rooted
    rw [Path.length, segments]
    simp
  simp only [AccountKey, Path.segments_eq_three_iff rooted, Path.hasReasonableAccount_iff,
    Path.containsChain, decide_eq_false_iff_not]
  constructor
  · rintro ⟨a, reasonable, three, third⟩
    exact ⟨⟨a, reasonable, third⟩, by omega⟩
  · rintro ⟨⟨a, reasonable, third⟩, short⟩
    exact ⟨a, reasonable, by omega, third⟩

theorem ownAddress_iff (rooted : BothRooted spending staking) :
    OwnAddress spending staking ↔ isOrdinaryDerivation spending staking = true := by
  have ordinary : (∃ a, spending.OrdinaryOf a) ↔
      spending.isOrdinaryPayment = true ∨ spending.isOrdinaryStaking = true := by
    rw [Path.isOrdinaryPayment_iff rooted.1, Path.isOrdinaryStaking_iff rooted.1, ← exists_or]
    rfl
  rw [isOrdinaryDerivation, Bool.and_eq_true, Bool.or_eq_true, ← ordinary, Option.all_eq_true]
  constructor
  · rintro ⟨a, own, staked⟩
    refine ⟨⟨a, own⟩, ?_⟩
    intro s some
    rw [own.account?_eq]
    exact (Path.isStakingOf_iff (rooted.2 s some)).mpr (staked s some)
  · rintro ⟨⟨a, own⟩, staked⟩
    refine ⟨a, own, ?_⟩
    intro s some
    have known := staked s some
    rw [own.account?_eq] at known
    exact (Path.isStakingOf_iff (rooted.2 s some)).mp known

theorem AccountKey.rooted (level : AccountKey path) : path.Rooted := by
  obtain ⟨a, reasonable, segments⟩ := level
  exact Path.rooted_of_third (UInt32.lt_trans reasonable (by decide)) segments

theorem OwnAddress.bothRooted (own : OwnAddress spending staking) :
    BothRooted spending staking := by
  obtain ⟨a, ordinary, staked⟩ := own
  exact ⟨ordinary.rooted, fun s some => (staked s some).rooted⟩

theorem OwnChange.bothRooted (own : OwnChange ctx path staking) : BothRooted path staking := by
  obtain ⟨a, witnesses, i, -, small, -, segments, staked⟩ := own
  exact ⟨Path.rooted_of_third small segments, fun s some => (staked s some).rooted⟩

theorem OwnWitness.rooted (own : OwnWitness ctx path) : path.Rooted := by
  obtain ⟨a, witnesses, chain, i, later, -, reasonable, -, segments⟩ := own
  exact Path.rooted_of_third (UInt32.lt_trans reasonable (by decide)) segments

theorem ownChange_iff {tx : TxContext} (rooted : BothRooted path staking) :
    OwnChange (some tx) path staking ↔
      (path.length == 5 && path.account? == some tx.account && path.chain? == some .internal &&
        path.hasReasonableAddress && staking.all (·.isStakingOf (some tx.account))) = true := by
  simp only [OwnChange, Bool.and_eq_true, beq_iff_eq, Option.all_eq_true,
    Path.account?_eq_some_iff, Path.chain?_eq_some_iff, Path.hasReasonableAddress_iff,
    Path.segments_eq_five_iff rooted.1, Chain.code]
  constructor
  · rintro ⟨a, witnesses, i, same, small, index, ⟨five, third, fourth, fifth⟩, staked⟩
    cases same
    refine ⟨⟨⟨⟨five, small, third⟩, fourth⟩, i, index, fifth⟩, ?_⟩
    intro s some
    exact (Path.isStakingOf_iff (rooted.2 s some)).mpr (staked s some)
  · rintro ⟨⟨⟨⟨five, small, third⟩, fourth⟩, i, index, fifth⟩, staked⟩
    refine ⟨tx.account, tx.witnesses, i, rfl, small, index, ⟨five, third, fourth, fifth⟩, ?_⟩
    intro s some
    exact (Path.isStakingOf_iff (rooted.2 s some)).mp (staked s some)

theorem ownWitness_iff {tx : TxContext} (rooted : path.Rooted) :
    OwnWitness (some tx) path ↔
      (path.account? == some tx.account && path.hasReasonableAccount && path.hasChain &&
        path.containsAddress) = true := by
  simp only [OwnWitness, exists_and_left, Path.exists_segments_eq_iff rooted, Bool.and_eq_true,
    beq_iff_eq, Path.hasReasonableAccount_iff, Path.hasChain_iff, Path.containsAddress_iff]
  constructor
  · rintro ⟨a, witnesses, same, reasonable, chain, known, third, fourth, i, fifth⟩
    cases same
    have small : a < hardenedFlag := UInt32.lt_trans reasonable (by decide)
    have account := Path.account?_eq_some_iff.mpr ⟨small, third⟩
    exact ⟨⟨⟨account, a, reasonable, third⟩, chain, known, fourth⟩, i, fifth⟩
  · rintro ⟨⟨⟨account, a, reasonable, third⟩, chain, known, fourth⟩, i, fifth⟩
    have small : a < hardenedFlag := UInt32.lt_trans reasonable (by decide)
    rw [Path.account?_eq_some_iff.mpr ⟨small, third⟩] at account
    cases account
    exact ⟨_, tx.witnesses, rfl, reasonable, chain, known, third, fourth, i, fifth⟩

section

open Classical

theorem keyExport_eq (path : Path) :
    keyExport path =
      if path.Rooted then if AccountKey path then prompt else warn else deny := by
  unfold keyExport
  by_cases rooted : path.Rooted
  · rw [if_pos rooted, Path.hasWalletRoot_iff.mpr rooted]
    simp only [accountKey_iff rooted]
    cases path.hasReasonableAccount <;> cases path.containsChain <;> simp
  · rw [if_neg rooted, Path.hasWalletRoot_eq_false rooted]
    rfl

theorem deriveAddress_eq (mode : AddressMode) (spending : Path) (staking : Option Path) :
    deriveAddress mode spending staking =
      if BothRooted spending staking then
        match mode with
        | .onDevice => if OwnAddress spending staking then present else warn
        | .toHost => if OwnAddress spending staking then allow else prompt
      else deny := by
  unfold deriveAddress
  by_cases rooted : BothRooted spending staking
  · rw [if_pos rooted, rooted_iff.mpr rooted]
    simp only [ownAddress_iff rooted]
    cases mode <;> cases isOrdinaryDerivation spending staking <;> simp
  · rw [if_neg rooted, rooted_eq_false rooted]
    rfl

theorem changeOutput_eq (ctx : Option TxContext) (path : Path) (staking : Option Path) :
    changeOutput ctx path staking =
      if BothRooted path staking then if OwnChange ctx path staking then allow else warn
      else deny := by
  unfold changeOutput
  by_cases rooted : BothRooted path staking
  · rw [if_pos rooted, rooted_iff.mpr rooted]
    cases ctx with
    | none => simp [OwnChange]
    | some tx => simp only [ownChange_iff rooted, Bool.not_true, Bool.false_eq_true, if_false]
  · rw [if_neg rooted, rooted_eq_false rooted]
    rfl

theorem witness_eq (ctx : Option TxContext) (path : Path) :
    witness ctx path =
      if path.Rooted then if OwnWitness ctx path then allow else warn else deny := by
  unfold witness
  by_cases rooted : path.Rooted
  · rw [if_pos rooted, Path.hasWalletRoot_iff.mpr rooted]
    cases ctx with
    | none => simp [OwnWitness]
    | some tx => simp only [ownWitness_iff rooted, Bool.not_true, Bool.false_eq_true, if_false]
  · rw [if_neg rooted, Path.hasWalletRoot_eq_false rooted]
    rfl

end

end Policy

namespace Request

variable {ctx : Option TxContext} {check : AddressCheck} {r : Request} {p : Policy}

/-- The table leaves no request out. -/
theorem exists_decided (ctx : Option TxContext) (check : AddressCheck) (r : Request) :
    ∃ p, r.Decided ctx check p := by
  cases r with
  | keyBatch count =>
    by_cases none : count = 0
    · subst none
      exact ⟨_, .noKeys⟩
    · by_cases one : count = 1
      · subst one
        exact ⟨_, .oneKey⟩
      · exact ⟨_, .manyKeys none one⟩
  | keyExport path =>
    by_cases rooted : path.Rooted
    · by_cases level : Policy.AccountKey path
      · exact ⟨_, .accountKey level⟩
      · exact ⟨_, .otherKey rooted level⟩
    · exact ⟨_, .foreignKey rooted⟩
  | deriveAddress mode spending staking =>
    by_cases rooted : Policy.BothRooted spending staking
    · by_cases own : Policy.OwnAddress spending staking
      · cases mode with
        | onDevice => exact ⟨_, .ownAddressShown own⟩
        | toHost => exact ⟨_, .ownAddressReturned own⟩
      · cases mode with
        | onDevice => exact ⟨_, .otherAddressShown rooted own⟩
        | toHost => exact ⟨_, .otherAddressReturned rooted own⟩
    · exact ⟨_, .foreignAddress rooted⟩
  | changeOutput amount flags path staking =>
    by_cases rooted : Policy.BothRooted path staking
    · by_cases own : Policy.OwnChange ctx path staking
      · exact ⟨_, .ownChange own⟩
      · exact ⟨_, .otherChange rooted own⟩
    · exact ⟨_, .foreignChange rooted⟩
  | witness path =>
    by_cases rooted : path.Rooted
    · by_cases own : Policy.OwnWitness ctx path
      · exact ⟨_, .ownWitness own⟩
      · exact ⟨_, .otherWitness rooted own⟩
    · exact ⟨_, .foreignWitness rooted⟩
  | txOutput amount flags address =>
    cases checked : check address.bytes with
    | true => exact ⟨_, .payment checked⟩
    | false => exact ⟨_, .malformed checked⟩
  | txFee fee => exact ⟨_, .fee⟩
  | txInit account inputs outputs witnesses => exact ⟨_, .init⟩
  | txInput utxo => exact ⟨_, .input⟩
  | attestUtxo utxo => exact ⟨_, .attest⟩

/-- Every row says what the policy is. -/
theorem policy_of_decided (row : r.Decided ctx check p) : r.policy ctx check = p := by
  cases row with
  | noKeys | oneKey | fee | init | input | attest => rfl
  | manyKeys none one => exact (if_neg none).trans (if_neg one)
  | foreignKey foreign => rw [policy, Policy.keyExport_eq, if_neg foreign]
  | accountKey level => rw [policy, Policy.keyExport_eq, if_pos level.rooted, if_pos level]
  | otherKey rooted other => rw [policy, Policy.keyExport_eq, if_pos rooted, if_neg other]
  | foreignAddress foreign => rw [policy, Policy.deriveAddress_eq, if_neg foreign]
  | ownAddressShown own | ownAddressReturned own =>
    rw [policy, Policy.deriveAddress_eq, if_pos own.bothRooted]
    exact if_pos own
  | otherAddressShown rooted other | otherAddressReturned rooted other =>
    rw [policy, Policy.deriveAddress_eq, if_pos rooted]
    exact if_neg other
  | foreignChange foreign => rw [policy, Policy.changeOutput_eq, if_neg foreign]
  | ownChange own => rw [policy, Policy.changeOutput_eq, if_pos own.bothRooted, if_pos own]
  | otherChange rooted other => rw [policy, Policy.changeOutput_eq, if_pos rooted, if_neg other]
  | foreignWitness foreign => rw [policy, Policy.witness_eq, if_neg foreign]
  | ownWitness own => rw [policy, Policy.witness_eq, if_pos own.rooted, if_pos own]
  | otherWitness rooted other => rw [policy, Policy.witness_eq, if_pos rooted, if_neg other]
  | malformed refused =>
    rw [policy, Policy.rawOutput, refused]
    rfl
  | payment checked => exact if_pos checked

/-- The policy for a request is what the table decides. -/
theorem policy_eq_iff : r.policy ctx check = p ↔ r.Decided ctx check p := by
  constructor
  · rintro rfl
    obtain ⟨p, row⟩ := exists_decided ctx check r
    rw [policy_of_decided row]
    exact row
  · intro row
    exact policy_of_decided row

end Request

end WalletConsent
