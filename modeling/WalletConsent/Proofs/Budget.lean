import WalletConsent.Proofs.Enforcement

/-!
How many witnesses a transaction gives away without showing a screen. Every operation on a session
keeps the transaction as it is or drops it; only a witness request counts it down, and the last one
expected closes it. The room left for silent witnesses therefore never grows before the next
transaction is announced.

A transaction announced without witnesses still has room for one: counting down stops at zero, and
only then is the transaction found to be closing.
-/

set_option autoImplicit false

namespace WalletConsent

namespace Session

variable {s : Session}

/-- Witnesses that the transaction may still give without a screen. -/
def room (s : Session) : Nat :=
  match s.tx with
  | none => 0
  | some tx => if s.closing then 0 else max tx.witnesses.toNat 1

/-- Working on a flow makes no room. -/
theorem Concludes.room_le {reply : Reply} (concludes : s.Concludes reply) :
    reply.session.room ≤ s.room := by
  cases concludes with
  | fails result session rendered =>
    rw [session]
    exact Nat.zero_le _
  | @exits approved d result session rendered =>
    rw [session]
    by_cases ends : (!approved || s.closing || s.isSettled) = true
    · rw [if_pos ends]
      exact Nat.zero_le _
    · have opened : s.closing = false := by
        simp only [Bool.or_eq_true, not_or, Bool.not_eq_true] at ends
        exact ends.1.2
      rw [if_neg ends]
      exact Nat.le_of_eq (by rw [room, room, opened])
  | advances advances =>
    exact Nat.le_of_eq (by rw [room, room, advances.tx, advances.closing])

theorem one_le_toNat {w : UInt16} (some : w ≠ 0) : 1 ≤ w.toNat :=
  Nat.one_le_iff_ne_zero.mpr fun zero => some (UInt16.toNat_inj.mp zero)

/-- Counting down stops at zero. -/
theorem toNat_countDown (w : UInt16) : (if w = 0 then 0 else w - 1).toNat = w.toNat - 1 := by
  by_cases none : w = 0
  · simp [none]
  · have some : 1 ≤ w := UInt16.le_iff_toNat_le.mpr (one_le_toNat none)
    rw [if_neg none, UInt16.toNat_sub_of_le _ _ some]
    rfl

theorem countWitness_eq {tx : TxContext} (path : Path) (expected : s.tx = some tx) :
    s.countWitness (.witness path) =
      { s with
        tx := some { tx with witnesses := if tx.witnesses = 0 then 0 else tx.witnesses - 1 }
        closing := (if tx.witnesses = 0 then 0 else tx.witnesses - 1) == 0 } := by
  unfold countWitness
  rw [expected]

/-- Counting a witness takes one place, the last one also where none was expected. -/
theorem room_countWitness {tx : TxContext} (path : Path) (expected : s.tx = some tx)
    (opened : s.closing = false) : (s.countWitness (.witness path)).room + 1 = s.room := by
  have fewer := toNat_countDown tx.witnesses
  rw [countWitness_eq path expected]
  simp only [room, expected, opened, Bool.false_eq_true, if_false]
  generalize (if tx.witnesses = 0 then 0 else tx.witnesses - 1) = left at fewer ⊢
  by_cases last : left = 0
  · rw [last, UInt16.toNat_zero] at fewer
    rw [if_pos (by simp [last])]
    omega
  · have more := one_le_toNat last
    rw [if_neg (by simpa using last)]
    omega

/-- A witness request that was answered with an approval before any screen was shown. -/
def Call.isSilentWitness (call : Call) (reply : Reply) : Bool :=
  match call, reply.result with
  | .request _ _ (.witness _) _, .ok (.exit true) =>
    (reply.rendered.filterMap Rendering.screen?).isEmpty
  | _, _ => false

def Call.announces : Call → Bool
  | .request _ _ (.txInit ..) _ => true
  | _ => false

/-- The number of silent witnesses in a run. -/
def silentWitnesses (s : Session) : List Call → Nat
  | [] => 0
  | call :: calls =>
    (call.isSilentWitness (s.perform call)).toNat + (s.perform call).session.silentWitnesses calls

theorem Call.isSilentWitness_of_ne {reply : Reply} (call : Call)
    (other : reply.result ≠ .ok (.exit true)) : call.isSilentWitness reply = false := by
  unfold isSilentWitness
  split
  · contradiction
  · rfl

variable {check : AddressCheck} {derive : Deriver} {r : Request} {style : ConfirmStyle}

/-- Without a transaction no witness is given in silence. -/
theorem result_witness_ne (idle : s.phase = .idle) (path : Path) (none : s.tx = none) :
    (s.request check derive (.witness path) style).result ≠ .ok (.exit true) := by
  intro approved
  by_cases rooted : path.hasWalletRoot = true
  · have warned : (Request.witness path).policy s.tx check = .warn := by
      simp [Request.policy, Policy.witness, none, rooted]
    obtain ⟨message, seen⟩ := @seen_request_of_warn s style _ _ _ idle warned rfl
    have pending := congrArg Prod.fst seen
    rw [show Prod.fst (Reply.seen _) = _ from approved] at pending
    cases pending
  · have denied : (Request.witness path).policy s.tx check = .deny := by
      simp [Request.policy, Policy.witness, rooted]
    rw [request_of_deny idle denied] at approved
    cases approved

theorem room_le_of_not_silent {call : Call} {reply : Reply}
    (loud : call.isSilentWitness reply = false) (kept : reply.session.room ≤ s.room) :
    (call.isSilentWitness reply).toNat + reply.session.room ≤ s.room := by
  rw [loud, Bool.toNat_false, Nat.zero_add]
  exact kept

/-- A witness request takes a place before its flow starts, whatever becomes of the flow; without a
transaction it is not given in silence. -/
theorem room_witness_le (tidy : s.Tidy) (idle : s.phase = .idle) (path : Path) :
    let call := Call.request check derive (.witness path) style
    (call.isSilentWitness (s.perform call)).toNat + (s.perform call).session.room ≤ s.room := by
  intro call
  have kept : (s.perform call).session.room ≤ (s.countWitness (.witness path)).room :=
    (begins_request tidy idle check derive (.witness path) style).room_le
  cases expected : s.tx with
  | none =>
    have uncounted : s.countWitness (.witness path) = s := by
      unfold countWitness
      rw [expected]
    have asked : call.isSilentWitness (s.perform call) = false :=
      call.isSilentWitness_of_ne (result_witness_ne idle path expected)
    rw [uncounted] at kept
    exact room_le_of_not_silent asked kept
  | some tx =>
    have opened : s.closing = false := by rw [tidy.eq_of_idle idle]
    have counted := room_countWitness path expected opened
    have one := Bool.toNat_le (call.isSilentWitness (s.perform call))
    omega

/-- No call but the announcement of a transaction makes room, and a silent witness takes some. -/
theorem room_perform_le (tidy : s.Tidy) {call : Call} (other : call.announces = false) :
    (call.isSilentWitness (s.perform call)).toNat + (s.perform call).session.room ≤ s.room := by
  have performs := performs tidy call
  generalize answered : s.perform call = reply at performs ⊢
  cases performs with
  | refuses busy opens =>
    exact room_le_of_not_silent (call.isSilentWitness_of_ne (by rintro ⟨⟩)) (Nat.zero_le _)
  | voids idle style => exact room_le_of_not_silent rfl (Nat.le_refl _)
  | ignores idle response => exact room_le_of_not_silent rfl (Nat.le_refl _)
  | resets => exact room_le_of_not_silent rfl (Nat.zero_le _)
  | goesOn shows concludes => exact room_le_of_not_silent rfl concludes.room_le
  | givesUp shows => exact room_le_of_not_silent rfl (concludes_finish s false).room_le
  | turns shows asking => exact room_le_of_not_silent rfl (Nat.le_refl _)
  | begins idle opens begun concludes =>
    cases call with
    | start flow style => exact room_le_of_not_silent rfl concludes.room_le
    | respond | reset => cases opens
    | request check derive r style =>
      cases r with
      | witness path =>
        rw [← answered]
        exact room_witness_le tidy idle path
      | txInit => cases other
      | keyBatch | keyExport | deriveAddress | txInput | txOutput | changeOutput | txFee
        | attestUtxo =>
        exact room_le_of_not_silent rfl concludes.room_le

/-- No run before the next announcement gives more silent witnesses than there is room for. -/
theorem silentWitnesses_le_room (tidy : s.Tidy) (calls : List Call) :
    s.silentWitnesses (calls.takeWhile (!·.announces)) ≤ s.room := by
  induction calls generalizing s with
  | nil => exact Nat.zero_le _
  | cons call calls ih =>
    by_cases announces : call.announces = true
    · simp [announces, silentWitnesses]
    · have other : call.announces = false := by simpa using announces
      have later := ih (tidy_perform tidy call)
      have here := room_perform_le tidy other
      rw [List.takeWhile_cons_of_pos (by simp [other]), silentWitnesses]
      omega

/-- An announcement makes room for the witnesses announced, and never for less than one. -/
theorem room_announcement_le (s : Session) (check : AddressCheck) (derive : Deriver)
    (account : UInt32) (inputs outputs n : UInt16) (style : ConfirmStyle) :
    (s.perform (.request check derive (.txInit account inputs outputs n) style)).session.room ≤
      max n.toNat 1 := by
  rw [perform]
  by_cases idle : s.phase = .idle
  · rw [request_of_no_flow idle rfl]
    exact Nat.le_refl _
  · rw [request_of_busy idle]
    exact Nat.zero_le _

theorem isSilentWitness_of_allow (calm : s.rejecting = false) (idle : s.phase = .idle)
    {path : Path} (allowed : (Request.witness path).policy s.tx check = .allow) (derive : Deriver)
    (style : ConfirmStyle) :
    (Call.request check derive (.witness path) style).isSilentWitness
      (s.perform (.request check derive (.witness path) style)) = true := by
  have seen : (s.request check derive (.witness path) style).seen = (.ok (.exit true), []) :=
    seen_request_of_allow calm idle allowed
  have result := congrArg Prod.fst seen
  have rendered := congrArg Prod.snd seen
  dsimp only [Reply.seen] at result rendered
  unfold Call.isSilentWitness perform
  simp [result, rendered]

/-- The silent witnesses after an announcement in a run, up to the next announcement. -/
def silentWitnessesAfter (before : List Call) (announcement : Call) (later : List Call) : Nat :=
  (Session.after {} (before ++ [announcement])).silentWitnesses
    (later.takeWhile (!·.announces))

/-- The first address of the first account. -/
def firstPath : Path := ⟨[0x8000002c, 0x80000717, 0x80000000, 0, 0], by decide⟩

theorem silentWitnessesAfter_none (check : AddressCheck) (derive : Deriver)
    (style : ConfirmStyle) :
    silentWitnessesAfter [] (.request check derive (.txInit 0 1 1 0) style)
      [.request check derive (.witness firstPath) style] = 1 := by
  let call := Call.request check derive (.witness firstPath) style
  have allowed : (Request.witness firstPath).policy (some ⟨0, 0⟩) check = .allow := rfl
  have silent : call.isSilentWitness (Session.perform { tx := some ⟨0, 0⟩ } call) = true :=
    isSilentWitness_of_allow rfl rfl allowed derive style
  have counted : Session.silentWitnesses { tx := some ⟨0, 0⟩ } [call] = 1 := by
    rw [silentWitnesses, silent]
    rfl
  exact counted

theorem silentWitnessesAfter_le (before : List Call) (check : AddressCheck) (derive : Deriver)
    (account : UInt32) (inputs outputs n : UInt16) (style : ConfirmStyle) (later : List Call) :
    silentWitnessesAfter before
      (.request check derive (.txInit account inputs outputs n) style) later ≤ max n.toNat 1 := by
  let announcement := Call.request check derive (.txInit account inputs outputs n) style
  have tidy := (Reachable.fresh.after (before ++ [announcement])).tidy
  have room := room_announcement_le (Session.after {} before) check derive account inputs outputs
    n style
  apply Nat.le_trans (silentWitnesses_le_room tidy later)
  rw [after_append]
  exact room

/-- Silent witnesses keep to the number announced exactly if one is announced; a transaction
announced without witnesses gives at most one. -/
theorem silentWitnesses_le_iff (n : UInt16) :
    (∀ before check derive account inputs outputs style later,
      silentWitnessesAfter before
        (.request check derive (.txInit account inputs outputs n) style) later ≤ max n.toNat 1) ∧
    ((∀ before check derive account inputs outputs style later,
      silentWitnessesAfter before
        (.request check derive (.txInit account inputs outputs n) style) later ≤ n.toNat) ↔
      n ≠ 0) := by
  refine ⟨?_, ?_, ?_⟩
  · intro before check derive account inputs outputs style later
    exact silentWitnessesAfter_le before check derive account inputs outputs n style later
  · rintro kept rfl
    have more := silentWitnessesAfter_none Address.isWellFormed (fun _ _ => .ok []) .full
    have less := kept [] Address.isWellFormed (fun _ _ => .ok []) 0 1 1 .full
      [.request Address.isWellFormed (fun _ _ => .ok []) (.witness firstPath) .full]
    rw [more] at less
    exact absurd less (by decide)
  · intro some before check derive account inputs outputs style later
    have one := one_le_toNat some
    have most := silentWitnessesAfter_le before check derive account inputs outputs n style later
    rwa [Nat.max_eq_left one] at most

/-- A transaction without witnesses gives one. -/
theorem silentWitnessesAfter_none_full :
    ¬ silentWitnessesAfter []
        (.request Address.isWellFormed (fun _ _ => .ok []) (.txInit 0 1 1 0) .full)
        [.request Address.isWellFormed (fun _ _ => .ok []) (.witness firstPath) .full] ≤
      (0 : UInt16).toNat := by
  rw [silentWitnessesAfter_none]
  decide

end Session

end WalletConsent
