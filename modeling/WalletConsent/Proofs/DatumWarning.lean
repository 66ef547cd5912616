import WalletConsent.Proofs.Approval

/-!
Change that carries a datum. Its flow warns of the datum, and an approval takes the acceptance of
every screen of a flow, each while it shows: so the warning has been on the display. The exception
is ordinary change, to an internal address of the account being signed for: the policy, which looks
at paths alone, allows it, and it is approved in silence, datum or not.
-/

set_option autoImplicit false

namespace WalletConsent

/-- The warning of a datum in change. -/
def Screen.datumInChange : Screen := .warning ⟨"Change output carries a datum", by decide⟩

/-- The flow of unusual change with a datum has the warning among its items. -/
theorem Flow.datumInChange_mem_screens {amount : UInt64} {path : Path} {staking : Option Path}
    {raw : Option (List UInt8)} {flow : Flow}
    (built : Flow.of .warn (.changeOutput amount path staking raw true) = .ok flow)
    (style : ConfirmStyle) : Screen.datumInChange ∈ Layout.screens style flow.items := by
  obtain ⟨entry, enters, offered⟩ := offers_eq_sceneOffers built
  cases enters
  have warned : .ok (.warning ⟨"Change output carries a datum", by decide⟩) ∈
      flow.offers flow.step := by
    rw [offered]
    exact List.mem_cons_of_mem _ List.mem_cons_self
  exact Layout.warning_mem_extend (List.mem_filterMap.mpr ⟨_, warned, rfl⟩) []

namespace Session

variable {s : Session} {amount : UInt64} {flags : OutputFlags} {path : Path}
  {staking : Option Path}

/-- A request for change is denied, approved in silence or left pending behind a warning. -/
theorem request_change_cases (r : Request) (change : r.kind = .changeOutput)
    (calm : s.rejecting = false) (idle : s.phase = .idle) (check : AddressCheck)
    (derive : Deriver) (style : ConfirmStyle) :
    let reply := s.request check derive r style
    (r.policy s.tx check = .deny ∧ reply.result = .error .policyDenied) ∨
      (r.policy s.tx check = .allow ∧ reply.seen = (.ok (.exit true), [])) ∨
      (r.policy s.tx check = .warn ∧ reply.result = .ok .pending) := by
  intro reply
  by_cases denied : r.policy s.tx check = .deny
  · left
    refine ⟨denied, ?_⟩
    dsimp only [reply]
    rw [request_of_deny idle denied]
    rfl
  have other : r.kind ≠ .deriveAddress := by simp [change]
  have derived := @Request.derivationFault?_of_ne r derive other
  by_cases allowed : r.policy s.tx check = .allow
  · refine .inr (.inl ⟨allowed, ?_⟩)
    dsimp only [reply]
    rw [seen_request_of_allow calm idle allowed, derived]
    rfl
  · have warned := Request.policy_eq_warn change denied allowed
    obtain ⟨message, seen⟩ := @seen_request_of_warn s style check derive r idle warned derived
    exact .inr (.inr ⟨warned, congrArg Prod.fst seen⟩)

/-- Change with a datum is not approved before the user has been told of the datum, save the change
that the policy allows, which is approved at once with nothing shown. -/
theorem datum_told (reachable : s.Reachable) (carries : flags.carriesDatum = true)
    (check : AddressCheck) (derive : Deriver) (style : ConfirmStyle) (responses : List Response)
    (approved :
      (s.consult check derive (.changeOutput amount flags path staking) style
        responses).getLast?.map Reply.result = some (.ok (.exit true))) :
    let r : Request := .changeOutput amount flags path staking
    let replies := s.consult check derive r style responses
    if r.policy s.tx check = .allow then replies.map Reply.seen = [(.ok (.exit true), [])]
    else ∃ reply ∈ replies.dropLast, .screen .datumInChange ∈ reply.rendered := by
  intro r replies
  rcases approved_cases reachable approved with ⟨rfl, result⟩ | ⟨past, response, rfl, pending, last⟩
  · have idle := idle_of_request result
    have calm := reachable.tidy.calm idle
    rcases request_change_cases r rfl calm idle check derive style with
      ⟨-, failed⟩ | ⟨allowed, seen⟩ | ⟨-, pending⟩
    · cases failed.symm.trans result
    · rw [if_pos allowed]
      exact congrArg (fun seen => [seen]) seen
    · cases pending.symm.trans result
  · have idle := idle_of_request pending
    have calm := reachable.tidy.calm idle
    rcases request_change_cases r rfl calm idle check derive style with
      ⟨-, failed⟩ | ⟨-, seen⟩ | ⟨warned, -⟩
    · cases failed.symm.trans pending
    · cases (congrArg Prod.fst seen).symm.trans pending
    · obtain ⟨content, flow, collected, built, rendered⟩ :=
        rendered_of_approved reachable idle (by simp [Request.address?]) pending last
      cases collected
      rw [warned, carries] at built
      rw [if_neg (by simp [warned])]
      exact rendered _ (Flow.datumInChange_mem_screens built style)

/-- Change while no transaction has been announced, accepted all the way. -/
theorem datum_told_of_unannounced :
    let derive : Deriver := fun _ _ => .error .unexpectedState
    let path : Path := ⟨[0x8000002c, 0x80000717, 0x80000000, 1, 0], by decide⟩
    let flow : Flow := ⟨.changeOutput 1 path none none true, .warn, .ofScene 0, rfl⟩
    let responses := List.replicate (Layout.screens .full flow.items).length Response.accept
    let replies := Session.consult {} Address.isWellFormed derive
      (.changeOutput 1 ⟨true, false, false, false⟩ path none) .full responses
    replies.getLast?.map Reply.result = some (.ok (.exit true)) ∧
      ∃ reply ∈ replies.dropLast, .screen .datumInChange ∈ reply.rendered := by
  intro derive path flow responses replies
  have built : Flow.of .warn flow.content = .ok flow := rfl
  have sound := Flow.offers_eq_map_items built (by decide)
  have walked : replies.map Reply.seen =
      (Layout.screens .full flow.items).map (fun screen => (.ok .pending, [.screen screen])) ++
        [(.ok (.exit true), Statuses.approval (Item.lastStatuses none flow.items))] := by
    dsimp only [replies, responses]
    rw [consult, List.map_replicate, run, List.map_cons]
    exact (walks_start (s := {}) rfl rfl sound .full).run
  have approved : replies.getLast?.map Reply.result = some (.ok (.exit true)) := by
    have last := congrArg List.getLast? walked
    rw [List.getLast?_map, List.getLast?_concat] at last
    have answered := congrArg (Option.map Prod.fst) last
    rw [Option.map_map] at answered
    exact answered
  exact ⟨approved, datum_told .fresh rfl Address.isWellFormed derive .full responses approved⟩

/-- Change of the transaction announced is approved although it carries a datum, and nothing has
been shown. -/
theorem datum_untold :
    let derive : Deriver := fun _ _ => .error .unexpectedState
    let s := Session.after {} [.request Address.isWellFormed derive (.txInit 0 1 1 1) .full]
    let flags : OutputFlags := ⟨true, false, false, false⟩
    let path : Path := ⟨[0x8000002c, 0x80000717, 0x80000000, 1, 0], by decide⟩
    s.Reachable ∧ flags.carriesDatum = true ∧
      (s.consult Address.isWellFormed derive (.changeOutput 1 flags path none) .full []).map
        Reply.seen = [(.ok (.exit true), [])] := by
  intro derive s flags path
  refine ⟨Reachable.fresh.after _, rfl, ?_⟩
  have seen := @seen_request_of_allow s .full Address.isWellFormed derive
    (.changeOutput 1 flags path none) rfl rfl rfl
  exact congrArg (fun seen => [seen]) seen

end Session

end WalletConsent
