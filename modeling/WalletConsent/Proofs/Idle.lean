import WalletConsent.Proofs.Replies

/-!
An idle session is as good as a fresh one with the same transaction: nothing of a request is left
behind once it has been answered, whatever its flow, its style and the responses to it. A fault
takes the transaction along as well, save that starting the empty flow changes nothing.
-/

set_option autoImplicit false

namespace WalletConsent

namespace Session

/-- What being idle means for a session, and what the faults of its next call leave. -/
structure CleanWhenIdle (s : Session) : Prop where
  idle_iff : s.phase = .idle ↔ s.flow = none
  /-- No fact, screen, status, style or mark is left, and no transaction is closing. -/
  fresh : s.phase = .idle → s = { tx := s.tx }
  fails (call : Call) (fault : Fault) (failed : (s.perform call).result = .error fault)
    (begun : s.phase = .idle → ∀ style, call ≠ .start none style) : (s.perform call).session = {}
  voids (idle : s.phase = .idle) (style : ConfirmStyle) :
    s.perform (.start none style) = { result := .error .unexpectedState, session := s }
  refuses (busy : s.phase ≠ .idle) (call : Call) (opens : call.opens = true) :
    s.perform call = { result := .error .unexpectedState, session := {} }

variable {s : Session}

theorem Tidy.idle_iff (tidy : s.Tidy) : s.phase = .idle ↔ s.flow = none := by
  cases tidy with
  | idle tx => exact ⟨fun _ => rfl, fun _ => rfl⟩
  | active shows =>
    have busy := shows.busy
    have active := shows.active
    constructor
    · intro idle
      contradiction
    · intro inactive
      rw [inactive] at active
      cases active

/-- Working on a flow, a session that fails is as good as new. -/
theorem Concludes.session_of_error {reply : Reply} {fault : Fault} (concludes : s.Concludes reply)
    (failed : reply.result = .error fault) : reply.session = {} := by
  cases concludes with
  | fails result session rendered => exact session
  | exits d result session rendered =>
    rw [result] at failed
    cases failed
  | advances advances =>
    rw [advances.result] at failed
    cases failed

theorem Performs.session_of_error {call : Call} {reply : Reply} {fault : Fault}
    (performs : s.Performs call reply) (failed : reply.result = .error fault)
    (begun : s.phase = .idle → ∀ style, call ≠ .start none style) : reply.session = {} := by
  cases performs with
  | refuses busy opens => rfl
  | voids idle style => exact absurd rfl (begun idle style)
  | ignores idle response => cases failed
  | resets => rfl
  | begins idle opens begun concludes => exact concludes.session_of_error failed
  | goesOn shows concludes => exact concludes.session_of_error failed
  | givesUp shows => cases failed
  | turns shows asking => cases failed

theorem Tidy.refuses (tidy : s.Tidy) (busy : s.phase ≠ .idle) {call : Call}
    (opens : call.opens = true) :
    s.perform call = { result := .error .unexpectedState, session := {} } := by
  have performs := performs tidy call
  generalize s.perform call = reply at performs ⊢
  cases performs with
  | refuses busy opens => rfl
  | voids idle style => contradiction
  | begins idle opens begun concludes => contradiction
  | ignores | resets | goesOn | givesUp | turns => cases opens

theorem Reachable.cleanWhenIdle (reachable : s.Reachable) : s.CleanWhenIdle where
  idle_iff := reachable.tidy.idle_iff
  fresh := reachable.tidy.eq_of_idle
  fails call _ failed begun := (performs reachable.tidy call).session_of_error failed begun
  voids idle style := start_none_of_idle idle style
  refuses busy _ opens := reachable.tidy.refuses busy opens

/-- After any calls a session is clean when idle, and two idle sessions with the same transaction
answer all further calls alike, however they came about. -/
theorem idle_forgets (calls calls' : List Call) :
    let s := Session.after {} calls
    let s' := Session.after {} calls'
    s.CleanWhenIdle ∧
      (s.phase = .idle → s'.phase = .idle → s.tx = s'.tx →
        ∀ later, s.run later = s'.run later) := by
  intro s s'
  have keeps : s.CleanWhenIdle := (Reachable.fresh.after calls).cleanWhenIdle
  have keeps' : s'.CleanWhenIdle := (Reachable.fresh.after calls').cleanWhenIdle
  refine ⟨keeps, ?_⟩
  intro idle idle' same later
  have left := keeps.fresh idle
  have left' := keeps'.fresh idle'
  rw [left, left', same]

end Session

end WalletConsent
