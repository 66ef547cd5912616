import Mathlib.Data.List.Induction
import WalletConsent.Proofs.Budget
import WalletConsent.Proofs.Idle

/-!
The transaction of a session as an account of the calls made so far. It is there exactly if one has
been announced, nothing since has broken it off, and the witnesses asked for since have not used it
up; the witnesses still expected are those announced less those asked for. No other request counts,
and no other flow.
-/

set_option autoImplicit false

namespace WalletConsent

namespace Session

def Call.isWitness : Call → Bool
  | .request _ _ (.witness _) _ => true
  | _ => false

theorem Call.isWitness_iff {call : Call} :
    call.isWitness = true ↔
      ∃ check derive path style, call = .request check derive (.witness path) style := by
  constructor
  · intro asked
    cases call with
    | start | respond | reset => cases asked
    | request check derive r style =>
      cases r with
      | witness path => exact ⟨check, derive, path, style, rfl⟩
      | _ => cases asked
  · rintro ⟨check, derive, path, style, rfl⟩
    rfl

theorem Call.announces_iff {call : Call} :
    call.announces = true ↔
      ∃ check derive account inputs outputs n style,
        call = .request check derive (.txInit account inputs outputs n) style := by
  constructor
  · intro announces
    cases call with
    | start | respond | reset => cases announces
    | request check derive r style =>
      cases r with
      | txInit account inputs outputs n =>
        exact ⟨check, derive, account, inputs, outputs, n, style, rfl⟩
      | _ => cases announces
  · rintro ⟨check, derive, account, inputs, outputs, n, style, rfl⟩
    rfl

/-- The number of witnesses asked for. -/
def witnesses (events : List Event) : Nat := events.countP (·.call.isWitness)

namespace Event

/-- An announcement that was answered with an approval. -/
def Announces (event : Event) (account : UInt32) (n : UInt16) : Prop :=
  (∃ check derive inputs outputs style,
    event.call = .request check derive (.txInit account inputs outputs n) style) ∧
  event.reply.result = .ok (.exit true)

/-- What breaks a transaction off, however much of it is left. -/
inductive Breaks (event : Event) : Prop
  /-- Every fault does but that of starting the empty flow on an idle session. -/
  | fails {fault : Fault} (failed : event.reply.result = .error fault)
      (begun : event.before.phase = .idle → ∀ style, event.call ≠ .start none style)
  | rejects (rejected : event.reply.result = .ok (.exit false))
  | resets (reset : event.call = .reset)

/-- The approval of the flow that confirms a transaction. -/
structure Confirms (event : Event) : Prop where
  approved : event.reply.result = .ok (.exit true)
  confirms : ∃ f, event.call.flow? event.before = some f ∧ f.kind = .txConfirm

end Event

/-- The flow of the last witness asked for is still active. -/
def WitnessActive (events : List Event) : Prop :=
  ∃ before event later, events = before ++ event :: later ∧ event.call.isWitness = true ∧
    ∀ e ∈ event :: later, e.reply.result = .ok .pending

/-- A transaction of `n` witnesses is still in progress after the events. -/
structure Lasts (n : UInt16) (events : List Event) : Prop where
  unannounced : ∀ event ∈ events, event.call.announces = false
  unbroken : ∀ event ∈ events, ¬ event.Breaks
  unconfirmed : n = 0 → ∀ event ∈ events, ¬ event.Confirms
  expected :
    witnesses events < n.toNat ∨ (witnesses events = 0 ∧ n = 0) ∨
      (witnesses events = max n.toNat 1 ∧ WitnessActive events)

/-- An approval after the events that completes the transaction: no witness is expected anymore, and
the flow is that of the last one or the one that confirms the transaction. -/
structure Completes (events : List Event) (event : Event) : Prop where
  expired : ∃ tx, event.before.tx = some tx ∧ tx.witnesses = 0
  approved : event.reply.result = .ok (.exit true)
  last : WitnessActive events ∨ event.Confirms

/-- Among the events a transaction is announced, and then come the later ones. -/
def Announced (events : List Event) (account : UInt32) (n : UInt16) (later : List Event) : Prop :=
  ∃ before announcement, events = before ++ announcement :: later ∧
    announcement.Announces account n

/-- Where a run split at one of its events ends: with that event, or later. -/
theorem concat_eq_append_cons_iff {α : Type} {xs before later : List α} {x y : α} :
    xs ++ [x] = before ++ y :: later ↔
      (later = [] ∧ xs = before ∧ x = y) ∨
        ∃ earlier, later = earlier ++ [x] ∧ xs = before ++ y :: earlier := by
  constructor
  · intro split
    rcases List.eq_nil_or_concat later with rfl | ⟨earlier, last, rfl⟩
    · obtain ⟨same, only⟩ := List.append_inj' split rfl
      exact .inl ⟨rfl, same, List.head_eq_of_cons_eq only⟩
    · rw [List.concat_eq_append, ← List.cons_append, ← List.append_assoc] at split
      obtain ⟨same, only⟩ := List.append_inj' split rfl
      obtain rfl : x = last := List.head_eq_of_cons_eq only
      exact .inr ⟨earlier, List.concat_eq_append, same⟩
  · rintro (⟨rfl, rfl, rfl⟩ | ⟨earlier, rfl, rfl⟩)
    · rfl
    · exact List.append_assoc ..

section

variable {events later : List Event} {event : Event} {account : UInt32} {n : UInt16}

theorem witnesses_concat (events : List Event) (event : Event) :
    witnesses (events ++ [event]) = witnesses events + event.call.isWitness.toNat := by
  rw [witnesses, List.countP_append, List.countP_singleton]
  cases event.call.isWitness <;> rfl

theorem announced_concat_iff :
    Announced (events ++ [event]) account n later ↔
      (later = [] ∧ event.Announces account n) ∨
        ∃ earlier, later = earlier ++ [event] ∧ Announced events account n earlier := by
  constructor
  · rintro ⟨before, announcement, split, announces⟩
    rcases concat_eq_append_cons_iff.mp split with ⟨rfl, rfl, rfl⟩ | ⟨earlier, rfl, rest⟩
    · exact .inl ⟨rfl, announces⟩
    · exact .inr ⟨earlier, rfl, before, announcement, rest, announces⟩
  · rintro (⟨rfl, announces⟩ | ⟨earlier, rfl, before, announcement, rest, announces⟩)
    · exact ⟨events, event, rfl, announces⟩
    · exact ⟨before, announcement, concat_eq_append_cons_iff.mpr (.inr ⟨earlier, rfl, rest⟩),
        announces⟩

theorem WitnessActive.pending (active : WitnessActive (events ++ [event])) :
    event.reply.result = .ok .pending := by
  obtain ⟨before, witness, later, split, -, waiting⟩ := active
  apply waiting
  rcases concat_eq_append_cons_iff.mp split with ⟨-, -, rfl⟩ | ⟨earlier, rfl, -⟩
  · exact List.mem_cons_self
  · exact List.mem_cons_of_mem _ List.mem_concat_self

theorem WitnessActive.concat (active : WitnessActive events)
    (pending : event.reply.result = .ok .pending) : WitnessActive (events ++ [event]) := by
  obtain ⟨before, witness, later, rfl, asked, waiting⟩ := active
  refine ⟨before, witness, later ++ [event], by simp, asked, ?_⟩
  intro e among
  rw [← List.cons_append, List.mem_append, List.mem_singleton] at among
  rcases among with earlier | rfl
  · exact waiting e earlier
  · exact pending

theorem WitnessActive.of_witness (asked : event.call.isWitness = true)
    (pending : event.reply.result = .ok .pending) : WitnessActive (events ++ [event]) := by
  refine ⟨events, event, [], rfl, asked, ?_⟩
  intro e only
  rw [List.mem_singleton.mp only]
  exact pending

theorem WitnessActive.of_concat (active : WitnessActive (events ++ [event]))
    (other : event.call.isWitness = false) : WitnessActive events := by
  obtain ⟨before, witness, later, split, asked, waiting⟩ := active
  rcases concat_eq_append_cons_iff.mp split with ⟨-, -, rfl⟩ | ⟨earlier, rfl, rest⟩
  · rw [asked] at other
    cases other
  · refine ⟨before, witness, earlier, rest, asked, ?_⟩
    intro e among
    exact waiting e (List.mem_append_left [event] among)

/-- Another witness is expected of a transaction, or the first of one announced without any. -/
theorem lt_max_one_iff {k : Nat} : k < max n.toNat 1 ↔ k < n.toNat ∨ (k = 0 ∧ n = 0) := by
  rw [← UInt16.toNat_inj, UInt16.toNat_zero]
  omega

theorem Lasts.lt_or_active (lasts : Lasts n events) :
    witnesses events < max n.toNat 1 ∨
      (witnesses events = max n.toNat 1 ∧ WitnessActive events) := by
  rw [lt_max_one_iff, or_assoc]
  exact lasts.expected

/-- What lasts after some events has lasted before. -/
theorem Lasts.of_concat (lasts : Lasts n (events ++ [event])) : Lasts n events where
  unannounced e among := lasts.unannounced e (List.mem_append_left _ among)
  unbroken e among := lasts.unbroken e (List.mem_append_left _ among)
  unconfirmed none e among := lasts.unconfirmed none e (List.mem_append_left _ among)
  expected := by
    have expected := lasts.lt_or_active
    rw [← or_assoc, ← lt_max_one_iff]
    rw [witnesses_concat] at expected
    cases asked : event.call.isWitness with
    | true =>
      rw [asked, Bool.toNat_true] at expected
      rcases expected with fewer | ⟨last, -⟩
      · exact .inl (by omega)
      · exact .inl (by omega)
    | false =>
      rw [asked, Bool.toNat_false, Nat.add_zero] at expected
      rcases expected with fewer | ⟨last, active⟩
      · exact .inl fewer
      · exact .inr ⟨last, active.of_concat asked⟩

/-- One event more keeps a transaction in progress. -/
theorem Lasts.extend (lasts : Lasts n events) (unannounced : event.call.announces = false)
    (unbroken : ¬ event.Breaks) (unconfirmed : n = 0 → ¬ event.Confirms)
    (expected :
      witnesses (events ++ [event]) < max n.toNat 1 ∨
        (witnesses (events ++ [event]) = max n.toNat 1 ∧ WitnessActive (events ++ [event]))) :
    Lasts n (events ++ [event]) where
  unannounced :=
    List.forall_mem_append.mpr ⟨lasts.unannounced, List.forall_mem_singleton.mpr unannounced⟩
  unbroken := List.forall_mem_append.mpr ⟨lasts.unbroken, List.forall_mem_singleton.mpr unbroken⟩
  unconfirmed none :=
    List.forall_mem_append.mpr
      ⟨lasts.unconfirmed none, List.forall_mem_singleton.mpr (unconfirmed none)⟩
  expected := by
    rw [← or_assoc, ← lt_max_one_iff]
    exact expected

theorem Lasts.nil (n : UInt16) : Lasts n [] where
  unannounced := List.forall_mem_nil _
  unbroken := List.forall_mem_nil _
  unconfirmed _ := List.forall_mem_nil _
  expected := by
    rw [← or_assoc, ← lt_max_one_iff]
    exact .inl (Nat.lt_of_lt_of_le Nat.one_pos (Nat.le_max_right ..))

theorem Event.not_breaks {answer : Answer} (answered : event.reply.result = .ok answer)
    (kept : answer ≠ .exit false) (stays : event.call ≠ .reset) : ¬ event.Breaks := by
  rintro (⟨failed, begun⟩ | rejected | reset)
  · rw [answered] at failed
    cases failed
  · rw [answered] at rejected
    exact kept (Except.ok.inj rejected)
  · exact stays reset

end

variable {s : Session} {call : Call} {account : UInt32} {n : UInt16} {k : Nat}

/-- What a call does to the transaction: it breaks it off, or a flow is approved, goes on, or is not
there. -/
inductive Books (s : Session) (call : Call) : Prop
  | breaks (breaks : Event.Breaks ⟨s, call⟩) (session : (s.perform call).session = {})
  | approves (result : (s.perform call).result = .ok (.exit true))
      (session : (s.perform call).session =
        { tx := if (s.enter call).closing || (s.enter call).isSettled then none
            else (s.enter call).tx })
  | stays (result : (s.perform call).result = .ok .pending)
      (tx : (s.perform call).session.tx = (s.enter call).tx)
      (closing : (s.perform call).session.closing = (s.enter call).closing)
  | idles (idle : s.phase = .idle) (other : call.isWitness = false)
      (unbroken : ¬ Event.Breaks ⟨s, call⟩)
      (unapproved : (s.perform call).result ≠ .ok (.exit true))
      (session : (s.perform call).session = s)

theorem Concludes.books (concludes : (s.enter call).Concludes (s.perform call))
    (begun : s.phase = .idle → ∀ style, call ≠ .start none style) : s.Books call := by
  cases concludes with
  | fails result session rendered => exact .breaks (.fails result begun) session
  | @exits approved d result session rendered =>
    cases approved with
    | true => exact .approves result session
    | false => exact .breaks (.rejects result) session
  | advances advances => exact .stays advances.result advances.tx advances.closing

theorem books (tidy : s.Tidy) (call : Call) : s.Books call := by
  have performs := performs tidy call
  generalize answered : s.perform call = reply at performs
  cases performs with
  | refuses busy opens =>
    refine .breaks (.fails (congrArg Reply.result answered) ?_) (congrArg Reply.session answered)
    intro idle
    contradiction
  | voids idle style =>
    have failed := congrArg Reply.result answered
    refine .idles idle rfl ?_ ?_ (congrArg Reply.session answered)
    · rintro (⟨-, begun⟩ | rejected | reset)
      · exact begun idle style rfl
      · cases failed.symm.trans rejected
      · cases reset
    · intro approved
      cases failed.symm.trans approved
  | ignores idle response =>
    have ignored := congrArg Reply.result answered
    refine .idles idle rfl ?_ ?_ (congrArg Reply.session answered)
    · exact Event.not_breaks ignored Answer.noConfusion (by rintro ⟨⟩)
    · intro approved
      cases ignored.symm.trans approved
  | resets => exact .breaks (.resets rfl) rfl
  | begins idle opens begun concludes =>
    rw [← answered] at concludes
    exact concludes.books fun _ => begun
  | goesOn shows concludes =>
    rw [← answered] at concludes
    exact Concludes.books concludes (by rintro - style ⟨⟩)
  | givesUp shows =>
    have concludes := concludes_finish s false
    rw [← answered] at concludes
    exact Concludes.books concludes (by rintro - style ⟨⟩)
  | turns shows asking =>
    exact .stays (congrArg Reply.result answered)
      (congrArg (fun reply => reply.session.tx) answered)
      (congrArg (fun reply => reply.session.closing) answered)

/-- The transaction of an account with `n` witnesses announced and `k` asked for. -/
structure Balances (s : Session) (account : UInt32) (n : UInt16) (k : Nat) : Prop where
  tx : ∃ w : UInt16, s.tx = some ⟨account, w⟩ ∧ w.toNat = n.toNat - k
  closing : s.closing = true ↔ k = max n.toNat 1

theorem isSettled_iff :
    s.isSettled = true ↔
      (∃ f, s.flow = some f ∧ f.kind = .txConfirm) ∧ ∃ tx, s.tx = some tx ∧ tx.witnesses = 0 := by
  simp [isSettled, Option.any_eq_true]

theorem flow_enter (started : call ≠ .reset) : (s.enter call).flow = call.flow? s := by
  cases call with
  | reset => contradiction
  | request | start | respond => rfl

/-- Neither other requests nor flows count. -/
theorem enter_of_other (unannounced : call.announces = false) (other : call.isWitness = false) :
    (s.enter call).tx = s.tx ∧ (s.enter call).closing = s.closing := by
  cases call with
  | start | respond | reset => exact ⟨rfl, rfl⟩
  | request check derive r style =>
    cases r with
    | txInit => cases unannounced
    | witness => cases other
    | keyBatch | keyExport | deriveAddress | txInput | txOutput | changeOutput | txFee
      | attestUtxo => exact ⟨rfl, rfl⟩

theorem Balances.countWitness (balances : s.Balances account n k) (room : k < max n.toNat 1)
    (path : Path) : (s.countWitness (.witness path)).Balances account n (k + 1) := by
  obtain ⟨w, expected, left⟩ := balances.tx
  have fewer := toNat_countDown w
  rw [countWitness_eq path expected]
  constructor
  · refine ⟨_, rfl, ?_⟩
    dsimp only
    omega
  · dsimp only
    rw [beq_iff_eq, ← UInt16.toNat_inj, fewer, UInt16.toNat_zero]
    omega

theorem Balances.enter (balances : s.Balances account n k) (unannounced : call.announces = false)
    (room : call.isWitness = true → k < max n.toNat 1) :
    (s.enter call).Balances account n (k + call.isWitness.toNat) := by
  cases asked : call.isWitness with
  | false =>
    obtain ⟨tx, closing⟩ := enter_of_other (s := s) unannounced asked
    constructor
    · rw [tx]
      exact balances.tx
    · rw [closing]
      exact balances.closing
  | true =>
    have counts := balances.countWitness (room asked)
    obtain ⟨check, derive, path, style, rfl⟩ := Call.isWitness_iff.mp asked
    exact ⟨(counts path).tx, (counts path).closing⟩

theorem Balances.expired_iff (balances : s.Balances account n k) :
    (∃ tx, s.tx = some tx ∧ tx.witnesses = 0) ↔ n.toNat ≤ k := by
  obtain ⟨w, expected, left⟩ := balances.tx
  have none_left : w = 0 ↔ n.toNat ≤ k := by
    rw [← UInt16.toNat_inj, left, UInt16.toNat_zero]
    omega
  rw [← none_left, expected]
  simp

/-- An approval ends a transaction whose last witness it gives, or one that it confirms while no
witness is expected. -/
theorem Balances.ends_iff (balances : (s.enter call).Balances account n k)
    (approved : (s.perform call).result = .ok (.exit true)) :
    ((s.enter call).closing || (s.enter call).isSettled) = true ↔
      k = max n.toNat 1 ∨ (Event.Confirms ⟨s, call⟩ ∧ n.toNat ≤ k) := by
  have started : call ≠ .reset := by
    rintro rfl
    cases approved
  rw [Bool.or_eq_true, balances.closing, isSettled_iff, balances.expired_iff, flow_enter started]
  have confirms : (∃ f, call.flow? s = some f ∧ f.kind = .txConfirm) ↔
      Event.Confirms ⟨s, call⟩ :=
    ⟨fun asked => ⟨approved, asked⟩, Event.Confirms.confirms⟩
  rw [confirms]

/-- One event more, and the account is kept. -/
theorem Balances.perform {later : List Event} (tidy : s.Tidy)
    (balances : s.Balances account n (witnesses later)) (lasts : Lasts n (later ++ [⟨s, call⟩])) :
    (s.perform call).session.Balances account n (witnesses (later ++ [⟨s, call⟩])) := by
  have here : (⟨s, call⟩ : Event) ∈ later ++ [⟨s, call⟩] := List.mem_concat_self
  have expected := lasts.lt_or_active
  have room : call.isWitness = true → witnesses later < max n.toNat 1 := by
    intro asked
    rw [witnesses_concat, asked, Bool.toNat_true] at expected
    rcases expected with fewer | ⟨last, -⟩ <;> omega
  have unannounced : call.announces = false := lasts.unannounced _ here
  have entered := balances.enter unannounced room
  rw [witnesses_concat] at expected ⊢
  dsimp only at expected ⊢
  cases books tidy call with
  | breaks breaks session => exact absurd breaks (lasts.unbroken _ here)
  | approves result session =>
    have fewer : witnesses later + call.isWitness.toNat < max n.toNat 1 := by
      rcases expected with fewer | ⟨-, active⟩
      · exact fewer
      · cases result.symm.trans active.pending
    have stands := mt (entered.ends_iff result).mp <| by
      rintro (last | ⟨confirms, none⟩)
      · omega
      · have unexpected : n = 0 := UInt16.toNat_inj.mp (by rw [UInt16.toNat_zero]; omega)
        exact lasts.unconfirmed unexpected _ here confirms
    rw [session, if_neg stands]
    constructor
    · exact entered.tx
    · exact iff_of_false Bool.false_ne_true (Nat.ne_of_lt fewer)
  | stays result tx closing =>
    constructor
    · rw [tx]
      exact entered.tx
    · rw [closing]
      exact entered.closing
  | idles idle other unbroken unapproved session =>
    rw [session, other]
    exact balances

/-- A call that asks for a flow finds no transaction closing, or leaves none. -/
theorem not_closing_of_opens (tidy : s.Tidy) (opens : call.opens = true)
    (left : (s.perform call).session.tx.isSome) : s.closing = false := by
  by_cases idle : s.phase = .idle
  · rw [tidy.eq_of_idle idle]
  · rw [tidy.refuses idle opens] at left
    cases left

/-- A transaction that is still there after one event more is still in progress. -/
theorem Lasts.concat {later : List Event} (tidy : s.Tidy) (lasts : Lasts n later)
    (balances : s.Balances account n (witnesses later)) (unannounced : call.announces = false)
    (left : (s.perform call).session.tx.isSome) : Lasts n (later ++ [⟨s, call⟩]) := by
  have started : call ≠ .reset := by
    rintro rfl
    cases left
  -- While the flow of the last witness is active, there is no asking for another.
  have unclosed : s.closing = false → witnesses later < max n.toNat 1 := by
    intro opened
    rcases lasts.lt_or_active with fewer | ⟨last, -⟩
    · exact fewer
    · rw [balances.closing.mpr last] at opened
      cases opened
  have room : call.isWitness = true → witnesses later < max n.toNat 1 := by
    intro asked
    obtain ⟨check, derive, path, style, rfl⟩ := Call.isWitness_iff.mp asked
    exact unclosed (not_closing_of_opens tidy rfl left)
  have entered := balances.enter unannounced room
  have counted := witnesses_concat later ⟨s, call⟩
  dsimp only at counted
  rw [← counted] at entered
  have most : witnesses (later ++ [⟨s, call⟩]) ≤ max n.toNat 1 := by
    rw [counted]
    cases asked : call.isWitness with
    | true => exact room asked
    | false =>
      rcases lasts.lt_or_active with fewer | ⟨last, -⟩
      · exact Nat.le_of_lt fewer
      · exact Nat.le_of_eq last
  cases books tidy call with
  | breaks breaks session =>
    rw [session] at left
    cases left
  | approves result session =>
    have stands := mt (entered.ends_iff result).mpr <| by
      intro ends
      rw [session, if_pos ends] at left
      cases left
    rw [not_or] at stands
    refine lasts.extend unannounced (Event.not_breaks result (by rintro ⟨⟩) started) ?_ ?_
    · rintro rfl confirms
      exact stands.2 ⟨confirms, Nat.zero_le _⟩
    · exact .inl (Nat.lt_of_le_of_ne most stands.1)
  | stays result tx closing =>
    refine lasts.extend unannounced (Event.not_breaks result (by rintro ⟨⟩) started) ?_ ?_
    · rintro - ⟨approved, -⟩
      cases result.symm.trans approved
    · refine (Nat.lt_or_eq_of_le most).imp_right fun last => ⟨last, ?_⟩
      cases asked : call.isWitness with
      | true => exact .of_witness asked result
      | false =>
        rw [counted, asked, Bool.toNat_false, Nat.add_zero] at last
        rcases lasts.lt_or_active with fewer | ⟨-, active⟩
        · omega
        · exact active.concat result
  | idles idle other unbroken unapproved session =>
    refine lasts.extend unannounced unbroken ?_ (.inl ?_)
    · rintro - ⟨approved, -⟩
      exact unapproved approved
    · rw [counted, other]
      exact unclosed (by rw [tidy.eq_of_idle idle])

theorem balances_announcement (tidy : s.Tidy) (announces : Event.Announces ⟨s, call⟩ account n) :
    (s.perform call).session.Balances account n 0 := by
  obtain ⟨⟨check, derive, inputs, outputs, style, rfl⟩, approved⟩ := announces
  have idle : s.phase = .idle := by
    apply Classical.byContradiction
    intro busy
    rw [Event.reply, tidy.refuses busy rfl] at approved
    cases approved
  rw [perform, request_of_no_flow idle rfl]
  refine ⟨⟨n, rfl, rfl⟩, ?_⟩
  simp only [announce, Bool.false_eq_true, if_false, false_iff]
  omega

theorem announces_of_left (tidy : s.Tidy) (announces : call.announces = true)
    (left : (s.perform call).session.tx.isSome) :
    ∃ account n, Event.Announces ⟨s, call⟩ account n := by
  obtain ⟨check, derive, account, inputs, outputs, n, style, rfl⟩ := Call.announces_iff.mp announces
  by_cases idle : s.phase = .idle
  · refine ⟨account, n, ⟨check, derive, inputs, outputs, style, rfl⟩, ?_⟩
    exact congrArg Reply.result (request_of_no_flow idle rfl)
  · rw [tidy.refuses idle rfl] at left
    cases left

/-- Without a transaction there is nothing to count. -/
theorem tx_enter_of_none (empty : s.tx = none) (unannounced : call.announces = false) :
    (s.enter call).tx = none := by
  cases asked : call.isWitness with
  | false => rw [(enter_of_other unannounced asked).1, empty]
  | true =>
    obtain ⟨check, derive, path, style, rfl⟩ := Call.isWitness_iff.mp asked
    have uncounted : s.countWitness (.witness path) = s := by
      unfold countWitness
      rw [empty]
    exact (congrArg Session.tx uncounted).trans empty

/-- Only an announcement makes a transaction. -/
theorem tx_perform_of_none (tidy : s.Tidy) (empty : s.tx = none)
    (unannounced : call.announces = false) : (s.perform call).session.tx = none := by
  have entered := tx_enter_of_none empty unannounced
  cases books tidy call with
  | breaks breaks session => rw [session]
  | approves result session => rw [session, entered, ite_self]
  | stays result tx closing => rw [tx, entered]
  | idles idle other unbroken unapproved session => rw [session, empty]

theorem balances_of_lasts (calls : List Call) {later : List Event}
    (announced : Announced (Session.history {} calls) account n later) (lasts : Lasts n later) :
    (Session.after {} calls).Balances account n (witnesses later) := by
  induction calls using List.reverseRecOn generalizing later with
  | nil =>
    obtain ⟨before, announcement, split, -⟩ := announced
    cases before <;> cases split
  | append_singleton calls call ih =>
    have tidy := (Reachable.fresh.after calls).tidy
    rw [history_concat, announced_concat_iff] at announced
    rw [after_concat]
    rcases announced with ⟨rfl, announces⟩ | ⟨earlier, rfl, announced⟩
    · exact balances_announcement tidy announces
    · exact (ih announced lasts.of_concat).perform tidy lasts

theorem exists_lasts (calls : List Call) (left : (Session.after {} calls).tx.isSome) :
    ∃ account n later, Announced (Session.history {} calls) account n later ∧ Lasts n later := by
  induction calls using List.reverseRecOn with
  | nil => cases left
  | append_singleton calls call ih =>
    have tidy := (Reachable.fresh.after calls).tidy
    rw [after_concat] at left
    rw [history_concat]
    cases announces : call.announces with
    | true =>
      obtain ⟨account, n, announcement⟩ := announces_of_left tidy announces left
      exact ⟨account, n, [], announced_concat_iff.mpr (.inl ⟨rfl, announcement⟩), .nil n⟩
    | false =>
      have before : (Session.after {} calls).tx.isSome := by
        apply Option.isSome_iff_ne_none.mpr
        intro empty
        rw [tx_perform_of_none tidy empty announces] at left
        cases left
      obtain ⟨account, n, later, announced, lasts⟩ := ih before
      have balances := balances_of_lasts calls announced lasts
      exact ⟨account, n, later ++ [⟨Session.after {} calls, call⟩],
        announced_concat_iff.mpr (.inr ⟨later, rfl, announced⟩),
        lasts.concat tidy balances announces left⟩

/-- A transaction is closing only while the flow of its last witness is active. -/
theorem witnessActive_of_closing (calls : List Call)
    (closing : (Session.after {} calls).closing = true) :
    WitnessActive (Session.history {} calls) := by
  induction calls using List.reverseRecOn with
  | nil => cases closing
  | append_singleton calls call ih =>
    have tidy := (Reachable.fresh.after calls).tidy
    rw [after_concat] at closing
    rw [history_concat]
    cases books tidy call with
    | breaks breaks session =>
      rw [session] at closing
      cases closing
    | approves result session =>
      rw [session] at closing
      cases closing
    | stays result tx closing' =>
      rw [closing'] at closing
      cases asked : call.isWitness with
      | true => exact .of_witness asked result
      | false =>
        have unannounced : call.announces = false := by
          apply Bool.eq_false_iff.mpr
          intro announces
          obtain ⟨check, derive, account, inputs, outputs, n, style, rfl⟩ :=
            Call.announces_iff.mp announces
          cases closing
        rw [(enter_of_other unannounced asked).2] at closing
        exact (ih closing).concat result
    | idles idle other unbroken unapproved session =>
      rw [session, tidy.eq_of_idle idle] at closing
      cases closing

/-- The transaction of a session, told from the calls made so far. -/
theorem tx_eq_some_iff (calls : List Call) (account : UInt32) (w : UInt16) :
    (Session.after {} calls).tx = some ⟨account, w⟩ ↔
      ∃ n later, Announced (Session.history {} calls) account n later ∧ Lasts n later ∧
        w.toNat = n.toNat - min (witnesses later) n.toNat := by
  have least : ∀ n k : Nat, n - min k n = n - k := by omega
  constructor
  · intro held
    obtain ⟨account', n, later, announced, lasts⟩ := exists_lasts calls (by rw [held]; rfl)
    obtain ⟨w', held', left⟩ := (balances_of_lasts calls announced lasts).tx
    obtain ⟨rfl, rfl⟩ : account = account' ∧ w = w' := by simpa using held.symm.trans held'
    exact ⟨n, later, announced, lasts, by rw [left, least]⟩
  · rintro ⟨n, later, announced, lasts, left⟩
    obtain ⟨w', held, left'⟩ := (balances_of_lasts calls announced lasts).tx
    rw [least, ← left'] at left
    rw [held, UInt16.toNat_inj.mp left]

theorem expired_of_closing (calls : List Call) {tx : TxContext}
    (held : (Session.after {} calls).tx = some tx)
    (closing : (Session.after {} calls).closing = true) : tx.witnesses = 0 := by
  obtain ⟨account, n, later, announced, lasts⟩ := exists_lasts calls (by rw [held]; rfl)
  have balances := balances_of_lasts calls announced lasts
  have last := balances.closing.mp closing
  obtain ⟨tx', held', none⟩ := balances.expired_iff.mpr (by omega)
  rw [held] at held'
  cases held'
  exact none

/-- What neither announces nor counts, breaks off or completes a transaction leaves it as it is. -/
theorem tx_perform_of_other (calls : List Call) (unannounced : call.announces = false)
    (other : call.isWitness = false) (unbroken : ¬ Event.Breaks ⟨Session.after {} calls, call⟩)
    (incomplete : ¬ Completes (Session.history {} calls) ⟨Session.after {} calls, call⟩) :
    ((Session.after {} calls).perform call).session.tx = (Session.after {} calls).tx := by
  have tidy := (Reachable.fresh.after calls).tidy
  obtain ⟨same, still⟩ := enter_of_other (s := Session.after {} calls) unannounced other
  cases books tidy call with
  | breaks breaks session => exact absurd breaks unbroken
  | stays result tx closing => exact tx.trans same
  | idles idle other unbroken unapproved session => exact congrArg Session.tx session
  | approves result session =>
    rw [session, same]
    by_cases ends : (((Session.after {} calls).enter call).closing ||
        ((Session.after {} calls).enter call).isSettled) = true
    · have started : call ≠ .reset := by
        rintro rfl
        cases result
      rw [if_pos ends]
      rw [Bool.or_eq_true, still, isSettled_iff, flow_enter started, same] at ends
      cases held : (Session.after {} calls).tx with
      | none => rfl
      | some tx =>
        exfalso
        apply incomplete
        rcases ends with closing | ⟨confirms, expired⟩
        · exact ⟨⟨tx, held, expired_of_closing calls held closing⟩, result,
            .inl (witnessActive_of_closing calls closing)⟩
        · exact ⟨expired, result, .inr ⟨result, confirms⟩⟩
    · rw [if_neg ends]

/-- The transaction is told from the calls made so far, and whatever else is asked for or approved
leaves it as it is. -/
theorem tx_accounted (calls : List Call) :
    (∀ account w,
      (Session.after {} calls).tx = some ⟨account, w⟩ ↔
        ∃ n later, Announced (Session.history {} calls) account n later ∧ Lasts n later ∧
          w.toNat = n.toNat - min (witnesses later) n.toNat) ∧
    ∀ call,
      let event : Event := ⟨Session.after {} calls, call⟩
      call.announces = false → call.isWitness = false → ¬ event.Breaks →
        ¬ Completes (Session.history {} calls) event →
          event.reply.session.tx = event.before.tx := by
  constructor
  · intro account w
    exact tx_eq_some_iff calls account w
  · intro call event unannounced other unbroken incomplete
    exact tx_perform_of_other calls unannounced other unbroken incomplete

end Session

end WalletConsent
