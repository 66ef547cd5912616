import WalletConsent.Proofs.AmountText
import WalletConsent.Proofs.Approval

/-!
Amounts that the user can tell apart. Every flow that asks about an amount of ADA has one fact for
it, under a label that no other of its facts bears, and an approval takes all screens of the flow.
So two requests that differ in the amount alone are approved on different screens, unless neither
amount is a signed 64-bit number: those have no text of their own.
-/

set_option autoImplicit false

namespace WalletConsent

namespace Item

/-- An item made of a fact shows the label that was asked for. -/
theorem label_of_made {make : Fact → Item} (brings : ∀ f, (make f).facts = [f])
    {label value : String} {item : Item} (good : make <$> Fact.of label value = .ok item) :
    ∀ f ∈ item.facts, f.label = label := by
  rw [Fact.of] at good
  split at good
  · cases good
    intro f among
    rw [brings] at among
    rw [List.mem_singleton.mp among]
  · cases good

theorem label_of_piece? {label : String} {raw : List UInt8} {n : Nat} {item : Item}
    (good : piece? label raw n = .ok item) :
    ∀ f ∈ item.facts, f.label = Address.pieceLabel label raw n := by
  rw [piece?] at good
  split at good
  · cases good
  · obtain ⟨value, -, good⟩ := bind_eq_ok_iff.mp good
    split at good
    · exact label_of_made (fun f => rfl) good
    · exact label_of_made (fun f => rfl) good

end Item

theorem Address.toList_isPrefix_pieceLabel (label : String) (raw : List UInt8) (n : Nat) :
    label.toList <+: (pieceLabel label raw n).toList := by
  rw [pieceLabel]
  split
  · simp only [String.toList_append, List.append_assoc]
    exact List.prefix_append ..
  · exact List.prefix_rfl

namespace Flow

/-- The body of a scene without facts under a label. -/
def Body.Avoids (label : String) (body : Body) : Prop :=
  ∀ item, .ok item ∈ body.offers 0 → ∀ f ∈ item.facts, f.label ≠ label

namespace Body.Avoids

variable {label : String}

theorem pass : Body.pass.Avoids label := by
  intro item offered
  cases offered

theorem silent {item : Item} (quiet : item.facts = []) : (Body.item (.ok item)).Avoids label := by
  intro item offered f among
  cases List.mem_singleton.mp offered
  rw [quiet] at among
  cases among

theorem fact? {other value : String} (apart : other ≠ label) :
    (Body.item (Item.fact? other value)).Avoids label := by
  intro item offered f among
  rw [Item.label_of_made (fun f => rfl) (List.mem_singleton.mp offered).symm f among]
  exact apart

theorem address {other : String} {raw : List UInt8} (apart : ¬ other.toList <+: label.toList) :
    (Body.address other raw).Avoids label := by
  intro item offered f among named
  have piece : ∃ n, Item.piece? other raw n = .ok item := by
    rcases List.mem_cons.mp offered with first | later
    · exact ⟨0, first.symm⟩
    · obtain ⟨n, -, placed⟩ := List.mem_map.mp later
      exact ⟨n, placed⟩
  obtain ⟨n, placed⟩ := piece
  have prefixed := Address.toList_isPrefix_pieceLabel other raw n
  rw [← Item.label_of_piece? placed f among, named] at prefixed
  exact apart prefixed

end Body.Avoids

/-- What the user is asked about with an amount, whatever the amount is, and the label of its
fact. -/
inductive Content.TakesAmount : String → (UInt64 → Content) → Prop
  | fee : TakesAmount "Transaction fee" .fee
  | output (raw : List UInt8) (bare : Bool) :
      TakesAmount "Amount" fun amount => .output amount raw bare
  | changeOutput (path : Path) (staking : Option Path) (raw : Option (List UInt8))
      (carriesDatum : Bool) :
      TakesAmount "Amount" fun amount => .changeOutput amount path staking raw carriesDatum
  | collateral (raw : List UInt8) : TakesAmount "Amount" fun amount => .collateral amount raw

namespace Content.TakesAmount

variable {label : String} {content : UInt64 → Content}

theorem labelFits (takes : TakesAmount label content) :
    label.utf8ByteSize ≤ Fact.maxLabelSize := by
  cases takes <;> decide

/-- The amount is shown last, and no scene before it has a fact under its label. -/
theorem exists_scenes (takes : TakesAmount label content) (policy : Policy) :
    ∃ front stage, (∀ scene ∈ front, scene.body.Avoids label) ∧
      ∀ amount, (content amount).scenes policy =
        front ++ [⟨stage, .item (Item.ada? label amount)⟩] := by
  cases takes with
  | fee => exact ⟨[], .display, by simp, fun amount => rfl⟩
  | output raw bare =>
    refine ⟨[_, _], .amount, ?_, fun amount => rfl⟩
    simp only [List.forall_mem_cons]
    exact ⟨.silent rfl, .address (by decide), by simp⟩
  | changeOutput path staking raw carriesDatum =>
    refine ⟨[_, _, _, _, _], .amount, ?_, fun amount => rfl⟩
    simp only [List.forall_mem_cons]
    refine ⟨?_, ?_, .fact? (by decide), ?_, ?_, by simp⟩
    · split <;> exact .silent rfl
    · cases carriesDatum with
      | true => exact .silent rfl
      | false => exact .pass
    · cases staking with
      | none => exact .fact? (by decide)
      | some path => exact .fact? (by decide)
    · cases raw with
      | none => exact .pass
      | some raw => exact .address (by decide)
  | collateral raw =>
    refine ⟨[_, _], .amount, ?_, fun amount => rfl⟩
    simp only [List.forall_mem_cons]
    exact ⟨.silent rfl, .address (by decide), by simp⟩

variable {policy : Policy} {amount : UInt64} {flow : Flow}

/-- The flow has a fact for the amount. -/
theorem exists_fact (takes : TakesAmount label content)
    (built : Flow.of policy (content amount) = .ok flow)
    (interactive : policy.isInteractive = true) :
    ∃ f ∈ flow.items.flatMap Item.facts,
      f.label = label ∧ Amount.ada? Item.adaRoom amount = some f.value := by
  obtain ⟨front, stage, -, scenes⟩ := takes.exists_scenes policy
  obtain ⟨entry, enters, offered⟩ := offers_eq_sceneOffers built
  have inside := (entry?_le_length enters).2 interactive
  obtain ⟨f, named, written, placed⟩ := Item.exists_ada takes.labelFits amount
  rw [scenes, List.length_append, List.length_singleton] at inside
  have offer : .ok (.fact f) ∈ flow.offers flow.step := by
    rw [offered, scenes, List.drop_append_of_le_length (Nat.le_of_lt_succ inside)]
    refine List.mem_flatMap.mpr ⟨_, List.mem_append_right _ List.mem_cons_self, ?_⟩
    exact List.mem_singleton.mpr placed.symm
  refine ⟨f, List.mem_flatMap.mpr ⟨.fact f, ?_, List.mem_singleton.mpr rfl⟩, named, written⟩
  exact List.mem_filterMap.mpr ⟨_, offer, rfl⟩

/-- No other fact of the flow bears the label of the amount. -/
theorem written_of_mem_facts (takes : TakesAmount label content)
    (built : Flow.of policy (content amount) = .ok flow) {f : Fact}
    (among : f ∈ flow.items.flatMap Item.facts) (named : f.label = label) :
    Amount.ada? Item.adaRoom amount = some f.value := by
  obtain ⟨front, stage, avoids, scenes⟩ := takes.exists_scenes policy
  obtain ⟨entry, -, offered⟩ := offers_eq_sceneOffers built
  obtain ⟨item, shown, brings⟩ := List.mem_flatMap.mp among
  obtain ⟨offer, offers, good⟩ := List.mem_filterMap.mp shown
  cases offer with
  | error fault => cases good
  | ok item' =>
    cases good
    rw [offered, scenes] at offers
    obtain ⟨scene, inside, offers⟩ := List.mem_flatMap.mp offers
    rcases List.mem_append.mp (List.mem_of_mem_drop inside) with before | last
    · exact absurd named (avoids scene before item offers f brings)
    · obtain ⟨g, -, written, placed⟩ := Item.exists_ada takes.labelFits amount
      cases List.mem_singleton.mp last
      cases (List.mem_singleton.mp offers).trans placed
      rw [List.mem_singleton.mp brings]
      exact written

end Content.TakesAmount

end Flow

/-- Requests with an amount, whatever the amount is. -/
inductive Request.TakesAmount : (UInt64 → Request) → Prop
  | txFee : TakesAmount .txFee
  | txOutput (flags : OutputFlags) (address : Address) :
      TakesAmount fun amount => .txOutput amount flags address
  | changeOutput (flags : OutputFlags) (path : Path) (staking : Option Path) :
      TakesAmount fun amount => .changeOutput amount flags path staking

namespace Request.TakesAmount

variable {request : UInt64 → Request}

theorem exists_content (takes : TakesAmount request) (derive : Deriver) :
    ∃ label content, Flow.Content.TakesAmount label content ∧
      ∀ amount, (request amount).content? derive = .ok (some (content amount)) := by
  cases takes with
  | txFee => exact ⟨_, _, .fee, fun amount => rfl⟩
  | txOutput flags address =>
    by_cases collateral : flags.collateral = true
    · exact ⟨_, _, .collateral address.bytes, fun amount => by simp [content?, collateral]⟩
    · exact ⟨_, _, .output address.bytes _, fun amount => by simp [content?, collateral]; rfl⟩
  | changeOutput flags path staking => exact ⟨_, _, .changeOutput .., fun amount => rfl⟩

/-- No policy looks at an amount. -/
theorem policy_eq (takes : TakesAmount request) (a b : UInt64) (ctx : Option TxContext)
    (check : AddressCheck) : (request a).policy ctx check = (request b).policy ctx check := by
  cases takes <;> rfl

theorem derivationFault?_eq_none (takes : TakesAmount request) (amount : UInt64)
    (derive : Deriver) : (request amount).derivationFault? derive = none := by
  cases takes <;> rfl

end Request.TakesAmount

namespace Session

/-- Responses that carry a request through to its approval. -/
def Approves (s : Session) (check : AddressCheck) (derive : Deriver) (r : Request)
    (style : ConfirmStyle) (responses : List Response) : Prop :=
  (s.consult check derive r style responses).getLast?.map Reply.result = some (.ok (.exit true))

/-- The screens rendered from a request on. -/
def screens (s : Session) (check : AddressCheck) (derive : Deriver) (r : Request)
    (style : ConfirmStyle) (responses : List Response) : List Screen :=
  (s.consult check derive r style responses).flatMap Reply.screens

/-- Two requests that cannot be approved on the same screens, each on a session of its own. -/
structure TellsApart (s s' : Session) (check : AddressCheck) (derive : Deriver) (r r' : Request)
    (style : ConfirmStyle) : Prop where
  differ (responses responses' : List Response)
      (approved : s.Approves check derive r style responses)
      (approved' : s'.Approves check derive r' style responses') :
    s.screens check derive r style responses ≠ s'.screens check derive r' style responses'
  /-- Only an empty address keeps the first request from being approved. -/
  approvable (filled : r.address? derive ≠ some []) :
    ∃ n, s.Approves check derive r style (List.replicate n .accept)
  approvable' (filled : r'.address? derive ≠ some []) :
    ∃ n, s'.Approves check derive r' style (List.replicate n .accept)

variable {s s' : Session} {request : UInt64 → Request} {check : AddressCheck} {derive : Deriver}
  {style : ConfirmStyle} {amount : UInt64} {label : String} {content : UInt64 → Flow.Content}

/-- Approving an amount takes a page with a fact for it, and no page shows its label with another
text. -/
theorem shows_amount_of_approved (reachable : s.Reachable) (idle : s.phase = .idle)
    (takes : Flow.Content.TakesAmount label content)
    (collected : (request amount).content? derive = .ok (some (content amount)))
    (derived : (request amount).derivationFault? derive = none)
    (interactive : ((request amount).policy s.tx check).isInteractive = true)
    {responses : List Response}
    (approved : s.Approves check derive (request amount) style responses) :
    (∃ page, .page page ∈ s.screens check derive (request amount) style responses ∧
      ∃ f ∈ page, f.label = label) ∧
    ∀ page, .page page ∈ s.screens check derive (request amount) style responses →
      ∀ f ∈ page, f.label = label → Amount.ada? Item.adaRoom amount = some f.value := by
  have calm := reachable.tidy.calm idle
  rcases approved_cases reachable approved with ⟨-, result⟩ | ⟨past, response, rfl, pending, last⟩
  · -- What has to be asked about is not approved at once.
    exfalso
    have asked := @seen_request_of_interactive s style check derive _ calm idle interactive derived
    rcases asked with ⟨screen, seen⟩ | ⟨seen, -⟩
    · cases (congrArg Prod.fst seen).symm.trans result
    · cases (congrArg Prod.fst seen).symm.trans result
  · obtain ⟨content', flow, collected', built, rendered⟩ :=
      mem_screens_iff_of_approved reachable idle pending last
    cases collected.symm.trans collected'
    have paged : ∀ page, Screen.page page ≠ .choice .rejection := by
      rintro page ⟨⟩
    constructor
    · obtain ⟨f, among, named, -⟩ := takes.exists_fact built interactive
      obtain ⟨page, laidOut, inside⟩ := (Layout.exists_page_iff style).mpr among
      exact ⟨page, (rendered _ (paged page)).mpr laidOut, f, inside, named⟩
    · intro page shown f inside named
      have laidOut := (rendered _ (paged page)).mp shown
      have among := (Layout.exists_page_iff style).mp ⟨page, laidOut, inside⟩
      exact takes.written_of_mem_facts built among named

/-- Two requests that differ in their amounts alone are approved on different screens, if one of the
amounts is a signed 64-bit number. -/
theorem tells_amounts_apart {a b : UInt64} (reachable : s.Reachable) (reachable' : s'.Reachable)
    (idle : s.phase = .idle) (idle' : s'.phase = .idle) (context : s.tx = s'.tx)
    (takes : Request.TakesAmount request)
    (interactive : ((request a).policy s.tx check).isInteractive = true) (distinct : a ≠ b)
    (signed : a.toNat < Amount.signedLimit ∨ b.toNat < Amount.signedLimit) (derive : Deriver)
    (style : ConfirmStyle) : TellsApart s s' check derive (request a) (request b) style := by
  have interactive' : ((request b).policy s'.tx check).isInteractive = true := by
    rw [← context, ← takes.policy_eq a b]
    exact interactive
  have derived := takes.derivationFault?_eq_none a derive
  have derived' := takes.derivationFault?_eq_none b derive
  constructor
  case differ =>
    intro responses responses' approved approved' same
    obtain ⟨label, content, amounts, collected⟩ := takes.exists_content derive
    obtain ⟨⟨page, shown, f, inside, named⟩, written⟩ := shows_amount_of_approved reachable idle
      amounts (collected a) derived interactive approved
    obtain ⟨-, written'⟩ := shows_amount_of_approved reachable' idle' amounts (collected b) derived'
      interactive' approved'
    have text := written page shown f inside named
    rw [same] at shown
    have text' := written' page shown f inside named
    rcases Amount.ada?_adaRoom_eq_iff.mp (text.trans text'.symm) with equal | ⟨large, large'⟩
    · exact distinct equal
    · rcases signed with signed | signed
      · exact Nat.not_le_of_lt signed large
      · exact Nat.not_le_of_lt signed large'
  case approvable =>
    intro filled
    exact exists_accept_approves reachable idle interactive derived filled style
  case approvable' =>
    intro filled
    exact exists_accept_approves reachable' idle' interactive' derived' filled style

/-- Fees of one and of two lovelace. -/
theorem tells_amounts_apart_of_fees :
    TellsApart {} {} Address.isWellFormed (fun _ _ => .error .unexpectedState) (.txFee 1) (.txFee 2)
      .full :=
  tells_amounts_apart .fresh .fresh rfl rfl rfl .txFee rfl (by decide) (.inl (by decide)) _ _

/-- Two fees that are no signed 64-bit numbers are approved on the same screen. -/
theorem large_fees_look_alike :
    let derive : Deriver := fun _ _ => .error .unexpectedState
    let r : Request := .txFee 0x8000000000000000
    let r' : Request := .txFee 0x8000000000000001
    r ≠ r' ∧ (r.policy none Address.isWellFormed).isInteractive = true ∧
      Approves {} Address.isWellFormed derive r .full [.accept] ∧
      Approves {} Address.isWellFormed derive r' .full [.accept] ∧
      Session.screens {} Address.isWellFormed derive r .full [.accept] =
        Session.screens {} Address.isWellFormed derive r' .full [.accept] := by
  intro derive r r'
  let flow : Flow := ⟨.fee 0x8000000000000000, .prompt, .ofScene 0, rfl⟩
  let flow' : Flow := ⟨.fee 0x8000000000000001, .prompt, .ofScene 0, rfl⟩
  have same : flow.items = flow'.items := rfl
  have one : (Layout.screens .full flow.items).length = 1 := rfl
  have sound : flow.offers flow.step = flow.items.map .ok := rfl
  have sound' : flow'.offers flow'.step = flow'.items.map .ok := rfl
  have walks := walks_start (s := {}) rfl rfl sound .full
  have walks' := walks_start (s := {}) rfl rfl sound' .full
  rw [← same] at walks'
  refine ⟨by decide, rfl, ?_, ?_, ?_⟩
  · have approves := walks.approves
    rw [one] at approves
    exact approves
  · have approves := walks'.approves
    rw [one] at approves
    exact approves
  · have shown := walks.screens
    have shown' := walks'.screens
    rw [one] at shown shown'
    exact shown.trans shown'.symm

end Session

end WalletConsent
