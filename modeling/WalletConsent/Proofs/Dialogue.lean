import WalletConsent.Proofs.Cursor
import WalletConsent.Proofs.Enforcement
import WalletConsent.Request.Decoding

/-!
Requests from their bytes to their exit. A request that is left pending stands in front of the first
screen of its flow, so responses to it are never faults and accepting leads out in a few screens.
What remains is the request itself: whatever bytes it came from, everything that it holds has its
place on a screen, and only a denial and a fault of the deriver keep it from its flow.
-/

set_option autoImplicit false

namespace WalletConsent

/-- The addresses that are derived, if any, have a length that addresses can have. -/
def Deriver.Sound (derive : Deriver) : Prop :=
  ∀ spending staking raw, derive spending staking = .ok raw →
    1 ≤ raw.length ∧ raw.length ≤ Address.maxLength

theorem Address.ne_nil_of_isWellFormed {raw : List UInt8} (good : isWellFormed raw = true) :
    raw ≠ [] := by
  rintro rfl
  cases good

theorem Layout.length_screens_le {policy : Policy} {content : Flow.Content} {flow : Flow}
    (built : Flow.of policy content = .ok flow) (style : ConfirmStyle) :
    (screens style flow.items).length ≤ 7 := by
  have few := length_extend_le style [] flow.items
  rw [close_nil, List.length_nil, Nat.zero_add] at few
  exact Nat.le_trans few (Flow.length_items_le built)

namespace Request

variable {r : Request} {ctx : Option TxContext} {derive : Deriver}

/-- The deriver itself has failed, since no address that it derives is too long. -/
theorem derivationFault?_of_sound {fault : Fault} (sound : derive.Sound)
    (underived : r.derivationFault? derive = some fault) :
    ∃ mode spending staking,
      r = .deriveAddress mode spending staking ∧ derive spending staking = .error fault := by
  cases r with
  | deriveAddress mode spending staking =>
    refine ⟨mode, spending, staking, rfl, ?_⟩
    rw [derivationFault?] at underived
    cases derived : derive spending staking with
    | error fault' =>
      rw [derived] at underived
      rw [Option.some.inj underived]
    | ok raw =>
      have short := (sound spending staking raw derived).2
      simp [derived, short] at underived
  | _ => cases underived

/-- No empty address is asked about: the check lets none pass, and none is derived. -/
theorem address?_ne_nil (sound : derive.Sound)
    (admitted : r.policy ctx Address.isWellFormed ≠ .deny) : r.address? derive ≠ some [] := by
  intro empty
  cases r with
  | deriveAddress mode spending staking =>
    cases derived : derive spending staking with
    | error fault =>
      rw [address?, derived] at empty
      cases empty
    | ok raw =>
      have some := (sound spending staking raw derived).1
      rw [address?, derived] at empty
      cases empty
      exact absurd some (by decide)
  | txOutput amount flags address =>
    have good : Address.isWellFormed address.bytes = true := by
      simpa [policy, Policy.rawOutput] using admitted
    exact Address.ne_nil_of_isWellFormed good (Option.some.inj empty)
  | _ => cases empty

end Request

theorem Cursor.answer_ne_error {style : ConfirmStyle} {screens : List Screen}
    {approval rejection : List Rendering} (cursor : Cursor) (response : Response) (fault : Fault) :
    (cursor.answer style screens approval rejection response).1 ≠ .error fault := by
  intro failed
  cases cursor with
  | on i rejecting =>
    cases rejecting <;> cases response
    case false.accept =>
      rw [answer] at failed
      cases ahead : screens[i + 1]? <;> rw [ahead] at failed <;> cases failed
    case false.reject => cases style <;> cases failed
    case true.accept => cases failed
    case true.reject => cases failed
  | done => cases failed

/-- A response leads behind the exit of a flow just when it is answered with that exit. -/
theorem Cursor.next_on_eq_done_iff {style : ConfirmStyle} {screens : List Screen}
    {approval rejection : List Rendering} (i : Nat) (rejecting : Bool) (response : Response) :
    (on i rejecting).next style screens.length response = done ↔
      ∃ approved,
        ((on i rejecting).answer style screens approval rejection response).1 =
          .ok (.exit approved) := by
  cases rejecting <;> cases response
  case false.accept =>
    rw [next, answer]
    by_cases inside : i + 1 < screens.length <;> simp [inside]
  case false.reject => cases style <;> simp [next, answer]
  case true.accept => simp [next, answer]
  case true.reject => simp [next, answer]

/-- A response that leads to the question about a rejection shows that question. -/
theorem Cursor.answer_of_next_asks {style : ConfirmStyle} {screens : List Screen}
    {approval rejection : List Rendering} {cursor : Cursor} {response : Response} {i : Nat}
    (asks : cursor.next style screens.length response = .on i true) :
    cursor.answer style screens approval rejection response =
      (.ok .pending, [.screen (.choice .rejection)]) := by
  cases cursor with
  | on j rejecting =>
    cases rejecting <;> cases response
    case false.accept =>
      rw [next] at asks
      split at asks <;> cases asks
    case false.reject =>
      cases style with
      | light => cases asks
      | full => rfl
    case true.accept => cases asks
    case true.reject => cases asks
  | done => cases asks

namespace Session

variable {s : Session} {flow : Flow} {style : ConfirmStyle} {statuses : Option Statuses}
  {screens : List Screen} {steps : List Flow.Step} {cursor : Cursor}

theorem Follows.never_fails (follows : Follows flow style statuses screens steps s cursor)
    (past : List Response) (response : Response) (fault : Fault) :
    ((s.after (past.map .respond)).update response).result ≠ .error fault := by
  intro failed
  have answered := congrArg Prod.fst ((follows.run past).update response).1
  exact Cursor.answer_ne_error _ response fault (answered.symm.trans failed)

/-- The session goes idle with the first exit that is answered, and not before. -/
theorem Follows.idle_after_iff {i : Nat} {rejecting : Bool}
    (follows : Follows flow style statuses screens steps s (.on i rejecting))
    (past : List Response) :
    (s.after (past.map .respond)).phase = .idle ↔
      ∃ approved, .ok (.exit approved) ∈ (s.run (past.map .respond)).map Reply.result := by
  induction past generalizing s i rejecting steps with
  | nil => simp [Session.run, follows.idle_iff]
  | cons response past ih =>
    obtain ⟨seen, moved⟩ := follows.update response
    have answered : (s.update response).result = _ := congrArg Prod.fst seen
    have ends : (Cursor.on i rejecting).next style screens.length response = .done ↔
        ∃ approved, (s.update response).result = .ok (.exit approved) := by
      rw [answered]
      exact Cursor.next_on_eq_done_iff i rejecting response
    rw [List.map_cons, after_cons, Session.run, List.map_cons, perform]
    cases following : (Cursor.on i rejecting).next style screens.length response with
    | on j rejecting' =>
      have stays : ∀ approved, (s.update response).result ≠ .ok (.exit approved) := by
        intro approved exits
        cases following.symm.trans (ends.mpr ⟨approved, exits⟩)
      rw [following] at moved
      rw [ih moved]
      simp only [List.mem_cons, (stays _).symm, false_or]
    | done =>
      obtain ⟨approved, exits⟩ := ends.mp following
      rw [following] at moved
      have idle := moved.idle_iff.mpr rfl
      rw [after_responses_of_idle idle, exits]
      exact iff_of_true idle ⟨approved, List.mem_cons_self⟩

theorem Follows.exists_asks (follows : Follows flow style statuses screens steps s cursor)
    (busy : s.phase ≠ .idle) (asked : s.rejecting = true) : ∃ i, cursor = .on i true := by
  cases follows with
  | waits place waits _ => cases asked.symm.trans waits.calm
  | @asks _ i => exact ⟨i, rfl⟩
  | done idle => contradiction

/-- Wherever the user is asked about a rejection, that question is the last screen shown. -/
theorem Follows.last_screen_of_asked {i : Nat}
    (follows : Follows flow style statuses screens steps s (.on i false)) (past : List Response)
    (busy : (s.after (past.map .respond)).phase ≠ .idle)
    (asked : (s.after (past.map .respond)).rejecting = true) :
    ((s.run (past.map .respond)).flatMap Reply.screens).getLast? =
      some (.choice .rejection) := by
  rcases List.eq_nil_or_concat past with rfl | ⟨earlier, last, rfl⟩
  · cases asked.symm.trans follows.calm
  · rw [List.concat_eq_append, List.map_append, List.map_singleton] at busy asked ⊢
    rw [after_concat, perform] at busy asked
    rw [run_concat, perform]
    obtain ⟨seen, moved⟩ := (follows.run earlier).update last
    obtain ⟨j, asks⟩ := moved.exists_asks busy asked
    rw [Cursor.answer_of_next_asks asks] at seen
    have rendered : ((s.after (earlier.map .respond)).update last).rendered =
        [.screen (.choice .rejection)] := congrArg Prod.snd seen
    have shown : ((s.after (earlier.map .respond)).update last).screens = [.choice .rejection] := by
      rw [Reply.screens, rendered]
      rfl
    rw [List.flatMap_append, List.flatMap_singleton, shown, List.getLast?_concat]

/-- Unless the user is asked about a rejection, accepting the screens left leads to the approval. -/
theorem Follows.accept_approves (follows : Follows flow style statuses screens steps s cursor)
    (busy : s.phase ≠ .idle) (calm : s.rejecting = false) :
    ∃ n < screens.length,
      (s.run (List.replicate (n + 1) (.respond .accept))).map Reply.result =
        List.replicate n (.ok .pending) ++ [.ok (.exit true)] := by
  cases follows with
  | @waits s i screen rest place waits asked =>
    refine ⟨rest.length, ?_, ?_⟩
    · have left := congrArg List.length place
      rw [List.length_drop, List.length_cons] at left
      omega
    · exact waits.walks.results
  | asks full place waits asked => cases calm
  | done idle => contradiction

variable {check : AddressCheck} {derive : Deriver} {r : Request}

theorem admitted_of_pending (idle : s.phase = .idle)
    (pending : (s.request check derive r style).result = .ok .pending) :
    r.policy s.tx check ≠ .deny := by
  intro denied
  rw [request_of_deny idle denied] at pending
  cases pending

theorem derived_of_pending (idle : s.phase = .idle)
    (pending : (s.request check derive r style).result = .ok .pending) :
    r.derivationFault? derive = none := by
  have admitted := admitted_of_pending idle pending
  cases underived : r.derivationFault? derive with
  | none => rfl
  | some fault =>
    have seen := @seen_request_of_derivationFault s style _ _ _ fault idle admitted underived
    cases (congrArg Prod.fst seen).symm.trans pending

theorem interactive_of_pending (calm : s.rejecting = false) (idle : s.phase = .idle)
    (pending : (s.request check derive r style).result = .ok .pending) :
    (r.policy s.tx check).isInteractive = true := by
  have admitted := admitted_of_pending idle pending
  have derived := derived_of_pending idle pending
  refine Decidable.byContradiction fun silent => ?_
  have allowed := Policy.eq_allow_of_not_isInteractive admitted silent
  have seen := @seen_request_of_allow s style _ derive _ calm idle allowed
  rw [derived] at seen
  cases (congrArg Prod.fst seen).symm.trans pending

/-- A request that is left pending has started the flow of its content. -/
theorem exists_start_of_pending (calm : s.rejecting = false) (idle : s.phase = .idle)
    (pending : (s.request check derive r style).result = .ok .pending) :
    ∃ content flow, r.content? derive = .ok (some content) ∧
      Flow.of (r.policy s.tx check) content = .ok flow ∧
      s.request check derive r style = ((s.announce r).countWitness r).start (some flow) style := by
  have admitted := admitted_of_pending idle pending
  have derived := derived_of_pending idle pending
  obtain ⟨content, collected⟩ := exists_content (interactive_of_pending calm idle pending) derived
  obtain ⟨flow, built, started⟩ := exists_start idle admitted collected derived style
  exact ⟨content, flow, collected, built, started⟩

/-- A request that is left pending stands in front of the first screen of its flow. -/
theorem follows_request (reachable : s.Reachable) (idle : s.phase = .idle)
    (filled : r.address? derive ≠ some [])
    (pending : (s.request check derive r style).result = .ok .pending) :
    ∃ content flow, r.content? derive = .ok (some content) ∧
      Flow.of (r.policy s.tx check) content = .ok flow ∧
      Follows flow style (Item.lastStatuses none flow.items) (Layout.screens style flow.items)
        (s.request check derive r style).steps (s.request check derive r style).session
        (.on 0 false) ∧
      (s.request check derive r style).showing none = (Layout.screens style flow.items)[0]? := by
  have calm := reachable.tidy.calm idle
  obtain ⟨content, flow, collected, built, started⟩ := exists_start_of_pending calm idle pending
  rw [← Request.address?_of_content collected] at filled
  have calm' : ((s.announce r).countWitness r).rejecting = false := by simpa using calm
  have idle' : ((s.announce r).countWitness r).phase = .idle := by simpa using idle
  have sound := Flow.offers_eq_map_items built filled
  refine ⟨content, flow, collected, built, ?_⟩
  rw [started] at pending ⊢
  exact ⟨follows_start calm' idle' sound pending,
    (walks_start calm' idle' sound style).showing pending⟩

/-- A request that the user can always see through to its exit, if it is not denied and its address,
if any, can be derived. -/
structure LeadsOut (s : Session) (check : AddressCheck) (derive : Deriver) (r : Request)
    (style : ConfirmStyle) : Prop where
  fails {fault : Fault} (failed : (s.request check derive r style).result = .error fault) :
    fault = .policyDenied ∧ r.policy s.tx check = .deny ∨
      ∃ mode spending staking,
        r = .deriveAddress mode spending staking ∧ derive spending staking = .error fault
  /-- A request that is left pending waits for the user, who is not asked about a rejection yet. -/
  waits (pending : (s.request check derive r style).result = .ok .pending) :
    (s.request check derive r style).session.phase ≠ .idle ∧
      (s.request check derive r style).session.rejecting = false
  /-- However the user responds, no response is a fault. -/
  responds (pending : (s.request check derive r style).result = .ok .pending)
    (past : List Response) (response : Response) (fault : Fault) :
    (((s.request check derive r style).session.after (past.map .respond)).update
      response).result ≠ .error fault
  /-- It waits until an exit has been answered. -/
  leaves (pending : (s.request check derive r style).result = .ok .pending)
    (past : List Response) :
    let waiting := (s.request check derive r style).session
    (waiting.after (past.map .respond)).phase = .idle ↔
      ∃ approved, .ok (.exit approved) ∈ (waiting.run (past.map .respond)).map Reply.result
  /-- Where the user is asked about a rejection, that question is the last screen shown. -/
  asks (pending : (s.request check derive r style).result = .ok .pending)
    (past : List Response) :
    let waiting := (s.request check derive r style).session
    (waiting.after (past.map .respond)).rejecting = true →
      ((waiting.run (past.map .respond)).flatMap Reply.screens).getLast? =
        some (.choice .rejection)
  /-- Wherever the user has got to, unless asked about a rejection, at most seven acceptances in a
  row approve. -/
  approves (pending : (s.request check derive r style).result = .ok .pending)
    (past : List Response) :
    let here := (s.request check derive r style).session.after (past.map .respond)
    here.phase ≠ .idle → here.rejecting = false →
      ∃ n < 7, (here.run (List.replicate (n + 1) (.respond .accept))).map Reply.result =
        List.replicate n (.ok .pending) ++ [.ok (.exit true)]

theorem request_fails (calm : s.rejecting = false) (idle : s.phase = .idle)
    (sound : derive.Sound) {fault : Fault}
    (failed : (s.request Address.isWellFormed derive r style).result = .error fault) :
    fault = .policyDenied ∧ r.policy s.tx Address.isWellFormed = .deny ∨
      ∃ mode spending staking,
        r = .deriveAddress mode spending staking ∧ derive spending staking = .error fault := by
  by_cases denied : r.policy s.tx Address.isWellFormed = .deny
  · rw [request_of_deny idle denied] at failed
    cases failed
    exact .inl ⟨rfl, denied⟩
  right
  cases derived : r.derivationFault? derive with
  | some fault' =>
    have seen := @seen_request_of_derivationFault s style _ _ _ _ idle denied derived
    cases (congrArg Prod.fst seen).symm.trans failed
    exact Request.derivationFault?_of_sound sound derived
  | none =>
    -- Nothing else fails: what is allowed is approved, and what is asked about has an address.
    exfalso
    by_cases interactive : (r.policy s.tx Address.isWellFormed).isInteractive = true
    · have asked := @seen_request_of_interactive s style _ _ _ calm idle interactive derived
      rcases asked with ⟨screen, seen⟩ | ⟨-, empty⟩
      · cases (congrArg Prod.fst seen).symm.trans failed
      · exact Request.address?_ne_nil sound denied empty
    · have allowed := Policy.eq_allow_of_not_isInteractive denied interactive
      have seen := @seen_request_of_allow s style _ derive _ calm idle allowed
      rw [derived] at seen
      cases (congrArg Prod.fst seen).symm.trans failed

/-- A request that is left pending stands in front of the first of at most seven screens. -/
theorem exists_follows (reachable : s.Reachable) (idle : s.phase = .idle) (sound : derive.Sound)
    (pending : (s.request Address.isWellFormed derive r style).result = .ok .pending) :
    ∃ flow statuses screens steps,
      screens.length ≤ 7 ∧
        Follows flow style statuses screens steps
          (s.request Address.isWellFormed derive r style).session (.on 0 false) := by
  have filled : r.address? derive ≠ some [] :=
    Request.address?_ne_nil sound (admitted_of_pending idle pending)
  obtain ⟨content, flow, -, built, follows, -⟩ := follows_request reachable idle filled pending
  exact ⟨flow, _, _, _, Layout.length_screens_le built style, follows⟩

theorem leadsOut (reachable : s.Reachable) (idle : s.phase = .idle) (sound : derive.Sound)
    (r : Request) (style : ConfirmStyle) : s.LeadsOut Address.isWellFormed derive r style := by
  constructor
  case fails =>
    intro fault
    exact request_fails (reachable.tidy.calm idle) idle sound
  case waits =>
    intro pending
    obtain ⟨flow, statuses, screens, steps, -, follows⟩ :=
      exists_follows reachable idle sound pending
    exact ⟨fun idle => Cursor.noConfusion (follows.idle_iff.mp idle), follows.calm⟩
  case responds =>
    intro pending past response fault
    obtain ⟨flow, statuses, screens, steps, -, follows⟩ :=
      exists_follows reachable idle sound pending
    exact follows.never_fails past response fault
  case leaves =>
    intro pending past
    obtain ⟨flow, statuses, screens, steps, -, follows⟩ :=
      exists_follows reachable idle sound pending
    exact follows.idle_after_iff past
  case asks =>
    intro pending past waiting asked
    obtain ⟨flow, statuses, screens, steps, -, follows⟩ :=
      exists_follows reachable idle sound pending
    -- Behind an exit no mark is left, so where there is one the session still waits.
    have later := (reachable.call (.request Address.isWellFormed derive r style)).after
      (past.map .respond)
    have busy : (waiting.after (past.map .respond)).phase ≠ .idle := by
      intro left
      cases asked.symm.trans (later.tidy.calm left)
    exact follows.last_screen_of_asked past busy asked
  case approves =>
    intro pending past here busy calm
    obtain ⟨flow, statuses, screens, steps, few, follows⟩ :=
      exists_follows reachable idle sound pending
    obtain ⟨n, inside, accepted⟩ := (follows.run past).accept_approves busy calm
    exact ⟨n, Nat.lt_of_lt_of_le inside few, accepted⟩

/-- Bytes that are read as a request, whatever they are, never lead into a dead end. -/
theorem parsed_leadsOut (reachable : s.Reachable) (idle : s.phase = .idle) (sound : derive.Sound)
    (style : ConfirmStyle) (ins : UInt8) (payload : List UInt8) :
    ∀ r, Request.parse ins payload = .ok r → s.LeadsOut Address.isWellFormed derive r style :=
  fun r _ => leadsOut reachable idle sound r style

/-- An address of the first account, shown on the device: the request is left pending, and accepting
what shows approves it. -/
theorem parsed_leadsOut_of_deriveAddress :
    let derive : Deriver := fun _ _ => .ok (List.replicate 57 0)
    let r : Request :=
      .deriveAddress .onDevice ⟨[0x8000002c, 0x80000717, 0x80000000, 0, 0], by decide⟩ none
    let reply := Session.request {} Address.isWellFormed derive r .full
    Session.LeadsOut {} Address.isWellFormed derive r .full ∧
      reply.result = .ok .pending ∧
      ∃ n < 7, (reply.session.run (List.replicate (n + 1) (.respond .accept))).map Reply.result =
        List.replicate n (.ok .pending) ++ [.ok (.exit true)] := by
  intro derive r reply
  have sound : derive.Sound := by
    rintro spending staking raw ⟨⟩
    decide
  have parsed : Request.parse 0x11
      [2, 0, 5, 0x80, 0, 0, 0x2c, 0x80, 0, 0x07, 0x17, 0x80, 0, 0, 0, 0, 0, 0, 0, 0, 0, 0, 0] =
        .ok r := rfl
  have leads := parsed_leadsOut .fresh rfl sound .full _ _ r parsed
  have presented : r.policy none Address.isWellFormed = .present := rfl
  have asked := @seen_request_of_interactive {} .full Address.isWellFormed derive r rfl rfl
    (by rw [presented]; rfl) rfl
  rcases asked with ⟨screen, seen⟩ | ⟨-, empty⟩
  · have pending : reply.result = .ok .pending := congrArg Prod.fst seen
    obtain ⟨busy, calm⟩ := leads.waits pending
    exact ⟨leads, pending, leads.approves pending [] busy calm⟩
  · cases empty

end Session

end WalletConsent
