import DeipChain.Ledger.AssetTraits
import DeipChain.Ledger.AwardTrees
import DeipChain.Ledger.SaleShares

/-!
# The supply of funding opportunities

An award is taken out of its funding opportunity when it is approved, so what is left of
the opportunity and the approved awards are its amount. Several awards may be pending that
do not fit together. The service that takes an award out asks for a rest above zero, so the
award that would use up an opportunity cannot be approved.
-/
namespace DeipChain.Ledger

open DeipChain.Result DeipChain.Table

variable {percentOf : Int → Int → Int} {genesis : GenesisState} {steps : List Step} {step : Step}
  {state next : State}

/-- What an award has taken out of the funding opportunity of a number. -/
def Award.spends (number : Name) (award : Award) : Int :=
  if award.fundingOpportunityNumber = number ∧ award.status = .approved then award.amount.amount
  else 0

/-- What is left and what was awarded are the amount, and what is left is not negative. -/
structure FundingOpportunity.Balanced (awards : List Award) (opportunity : FundingOpportunity) :
    Prop where
  symbol : opportunity.currentSupply.symbol = opportunity.amount.symbol
  nonneg : 0 ≤ opportunity.currentSupply.amount
  spent : opportunity.currentSupply.amount +
    total (Award.spends opportunity.fundingOpportunityNumber) awards = opportunity.amount.amount

/-- An award has a funding opportunity in its asset, a university and no negative fee. -/
structure Award.Placed (award : Award) (state : State) : Prop where
  funded : ∃ opportunity ∈ state.opportunities,
    opportunity.fundingOpportunityNumber = award.fundingOpportunityNumber ∧
      opportunity.amount.symbol = award.amount.symbol
  university : ∃ group, state.getResearchGroup award.universityId = .ok group
  fee : 0 ≤ (universityFee award.amount award.universityOverhead).amount

/-- What every step keeps of the funding opportunities and their awards. -/
structure Granted (state : State) : Prop where
  ids : state.opportunities.map FundingOpportunity.id = List.range state.opportunities.length
  numbers : (state.opportunities.map FundingOpportunity.fundingOpportunityNumber).Nodup
  balanced : ∀ opportunity ∈ state.opportunities, opportunity.Balanced state.awards
  listed : ∀ opportunity ∈ state.opportunities,
    opportunity.amount.symbol ∈ state.assets.map AssetObject.symbol
  placed : ∀ award ∈ state.awards, award.Placed state
  recipients : ∀ recipient ∈ state.recipients, ∃ award ∈ state.awards,
    award.awardNumber = recipient.awardNumber ∧
      award.amount.symbol = recipient.totalAmount.symbol

/-! ## Assets and universities remain -/

theorem mem_symbols_of_terms {assets after added : List AssetObject} {symbol : AssetSymbol}
    (terms : after.map AssetObject.terms = assets.map AssetObject.terms ++ added)
    (listed : symbol ∈ assets.map AssetObject.symbol) : symbol ∈ after.map AssetObject.symbol := by
  have columns := congrArg (List.map AssetObject.symbol) terms
  rw [List.map_append, List.map_map, List.map_map] at columns
  have same : AssetObject.symbol ∘ AssetObject.terms = AssetObject.symbol := rfl
  rw [same] at columns
  rw [columns]
  exact List.mem_append_left _ listed

theorem Step.symbol_listed (applied : step.apply percentOf state = .ok next) {symbol : AssetSymbol}
    (listed : symbol ∈ state.assets.map AssetObject.symbol) :
    symbol ∈ next.assets.map AssetObject.symbol :=
  mem_symbols_of_terms (Step.assets_terms applied) listed

/-- An award stays placed while opportunities keep their numbers and amounts. -/
theorem Award.Placed.later {award : Award} (placed : award.Placed state)
    (applied : step.apply percentOf state = .ok next)
    (kept : ∀ opportunity ∈ state.opportunities, ∃ after ∈ next.opportunities,
      after.fundingOpportunityNumber = opportunity.fundingOpportunityNumber ∧
        after.amount = opportunity.amount) : award.Placed next where
  funded := by
    obtain ⟨opportunity, member, number, symbol⟩ := placed.funded
    obtain ⟨after, listed, sameNumber, sameAmount⟩ := kept opportunity member
    exact ⟨after, listed, sameNumber.trans number, sameAmount ▸ symbol⟩
  university := by
    obtain ⟨group, got⟩ := placed.university
    exact ⟨group, Step.getResearchGroup_kept applied got⟩
  fee := placed.fee

/-- Recipients who keep their parts keep an award, if its status is all that it changes. -/
theorem Granted.recipients_later (granted : Granted state)
    (parts : next.recipients.map AwardRecipient.part = state.recipients.map AwardRecipient.part)
    (kept : ∀ award ∈ state.awards, ∃ after ∈ next.awards,
      after.awardNumber = award.awardNumber ∧ after.amount = award.amount) :
    ∀ recipient ∈ next.recipients, ∃ award ∈ next.awards,
      award.awardNumber = recipient.awardNumber ∧
        award.amount.symbol = recipient.totalAmount.symbol := by
  intro recipient member
  have part := parts ▸ List.mem_map_of_mem (f := AwardRecipient.part) member
  obtain ⟨old, listed, same⟩ := List.mem_map.mp part
  simp only [AwardRecipient.part, Prod.mk.injEq] at same
  obtain ⟨award, known, number, symbol⟩ := granted.recipients old listed
  obtain ⟨after, present, sameNumber, sameAmount⟩ := kept award known
  refine ⟨after, present, sameNumber.trans (number.trans same.1), ?_⟩
  rw [sameAmount, symbol, same.2]

/-- A step that writes neither opportunities nor awards, and of the recipients only what they
    have spent. -/
theorem Granted.framed (granted : Granted state) (applied : step.apply percentOf state = .ok next)
    (opportunities : next.opportunities = state.opportunities)
    (awards : next.awards = state.awards)
    (recipients : next.recipients.map AwardRecipient.part =
      state.recipients.map AwardRecipient.part) : Granted next where
  ids := opportunities ▸ granted.ids
  numbers := opportunities ▸ granted.numbers
  balanced := by
    rw [opportunities, awards]
    exact granted.balanced
  listed opportunity member :=
    Step.symbol_listed applied (granted.listed opportunity (opportunities ▸ member))
  placed := by
    rw [awards]
    intro award member
    refine (granted.placed award member).later applied fun opportunity listed => ?_
    exact ⟨opportunity, opportunities ▸ listed, rfl, rfl⟩
  recipients := by
    refine granted.recipients_later recipients fun award member => ?_
    exact ⟨award, awards ▸ member, rfl, rfl⟩

/-! ## New opportunities -/

/-- A grant opens a funding opportunity with all of its amount left, or none. -/
theorem CreateGrantOperation.apply_opens {op : CreateGrantOperation} (valid : op.validate = .ok ())
    (applied : op.apply state = .ok next) : next.opportunities = state.opportunities ∨
      ∃ opportunity, next.opportunities = state.opportunities ++ [opportunity] ∧
        opportunity.id = state.opportunities.length ∧
        opportunity.currentSupply = opportunity.amount ∧ 0 ≤ opportunity.amount.amount ∧
        opportunity.amount.symbol ∈ state.assets.map AssetObject.symbol ∧
        ∀ other ∈ state.opportunities,
          other.fundingOpportunityNumber ≠ opportunity.fundingOpportunityNumber := by
  simp only [validate, bind_ok_iff, require_ok_iff] at valid
  obtain ⟨_, compared, _, rfl, _⟩ := valid
  have positive := (Asset.above_zero_iff.mp compared).2
  simp only [apply, bind_ok_iff, require_ok_iff] at applied
  obtain ⟨_, _, _, known, _, _, _, _, _, _, _, _, _, _, applied⟩ := applied
  have listed : op.amount.symbol ∈ state.assets.map AssetObject.symbol := by
    obtain ⟨asset, member, same⟩ := List.any_eq_true.mp known
    exact List.mem_map.mpr ⟨asset, member, beq_iff_eq.mp same⟩
  split at applied
  · simp only [openWindow, createFundingOpportunity, bind_ok_iff, require_ok_iff,
      pure_ok_iff] at applied
    obtain ⟨_, _, _, _, _, _, _, _, _, fresh, rfl⟩ := applied
    exact .inr ⟨_, rfl, rfl, rfl, positive.le, listed, fresh⟩
  · simp only [announce, createFundingOpportunity, bind_ok_iff, require_ok_iff,
      pure_ok_iff] at applied
    obtain ⟨_, _, _, _, _, _, _, _, _, _, _, _, _, _, _, _, _, _, _, fresh, rfl⟩ := applied
    exact .inr ⟨_, rfl, rfl, rfl, positive.le, listed, fresh⟩
  · simp only [supply, createDisciplineSupply, bind_ok_iff, pure_ok_iff] at applied
    obtain ⟨_, _, _, _, _, _, _, _, _, _, rfl⟩ := applied
    exact .inl rfl

theorem Granted.opened (granted : Granted state) (applied : step.apply percentOf state = .ok next)
    {opportunity : FundingOpportunity}
    (opportunities : next.opportunities = state.opportunities ++ [opportunity])
    (awards : next.awards = state.awards) (recipients : next.recipients = state.recipients)
    (id : opportunity.id = state.opportunities.length)
    (full : opportunity.currentSupply = opportunity.amount)
    (positive : 0 ≤ opportunity.amount.amount)
    (listed : opportunity.amount.symbol ∈ state.assets.map AssetObject.symbol)
    (fresh : ∀ other ∈ state.opportunities,
      other.fundingOpportunityNumber ≠ opportunity.fundingOpportunityNumber) : Granted next where
  ids := by
    rw [opportunities, List.map_append, granted.ids, List.length_append, List.length_singleton,
      List.range_succ, List.map_singleton, id]
  numbers := by
    rw [opportunities]
    exact nodup_append_fresh granted.numbers fresh
  balanced := by
    rw [opportunities, awards]
    refine forall_append_singleton granted.balanced ⟨congrArg _ full, full ▸ positive, ?_⟩
    have unspent : total (Award.spends opportunity.fundingOpportunityNumber) state.awards = 0 := by
      refine total_eq_zero fun award member => if_neg ?_
      rintro ⟨same, _⟩
      obtain ⟨other, known, number, _⟩ := (granted.placed award member).funded
      exact fresh other known (number.trans same)
    rw [unspent, add_zero, full]
  listed := by
    rw [opportunities]
    intro other member
    refine Step.symbol_listed applied ?_
    exact forall_append_singleton granted.listed listed other member
  placed := by
    rw [awards]
    intro award member
    refine (granted.placed award member).later applied fun other known => ?_
    exact ⟨other, opportunities ▸ List.mem_append_left _ known, rfl, rfl⟩
  recipients := by
    rw [awards, recipients]
    exact granted.recipients

/-! ## New awards -/

theorem universityFee_nonneg {op : CreateAwardOperation} (valid : op.validate = .ok ()) :
    0 ≤ (universityFee op.award op.universityOverhead).amount := by
  simp only [CreateAwardOperation.validate, bind_ok_iff, require_ok_iff] at valid
  obtain ⟨_, positive, _, _, _, ⟨overhead, _⟩, _⟩ := valid
  exact Int.tdiv_nonneg (Int.mul_nonneg positive.le overhead) (by decide)

/-- A new award is on an opportunity in its asset, and its university is known. -/
theorem CreateAwardOperation.Created.placed {op : CreateAwardOperation}
    {parts : List (Name × Asset)} {award : Award} (created : op.Created parts award state next)
    (valid : op.validate = .ok ()) : award.Placed state where
  funded := by
    obtain ⟨opportunity, found, symbol⟩ := created.funded
    rw [State.getFundingOpportunity, expect_ok_iff] at found
    refine ⟨opportunity, List.mem_of_find?_eq_some found, by simpa using List.find?_some found, ?_⟩
    rw [created.amount, symbol]
  university := by
    obtain ⟨group, member, id⟩ := created.university
    have found : (state.groups.find? fun group => group.id == award.universityId).isSome :=
      List.find?_isSome.mpr ⟨group, member, beq_iff_eq.mpr id⟩
    obtain ⟨found, is⟩ := Option.isSome_iff_exists.mp found
    exact ⟨found, expect_ok_iff.mpr is⟩
  fee := by
    rw [created.amount, created.overhead]
    exact universityFee_nonneg valid

theorem Granted.awarded (granted : Granted state) (applied : step.apply percentOf state = .ok next)
    {op : CreateAwardOperation} {parts : List (Name × Asset)} {award : Award}
    (valid : op.validate = .ok ()) (created : op.Created parts award state next) : Granted next := by
  have divides := CreateAwardOperation.divides_of_validate valid
  have placed := created.placed valid
  have opportunities : next.opportunities = state.opportunities := by rw [created.result]
  have awards : next.awards = state.awards ++ [award] := by rw [created.result]
  have recipients : next.recipients = state.recipients ++ op.recipients parts := by
    rw [created.result]
  constructor
  · rw [opportunities]
    exact granted.ids
  · rw [opportunities]
    exact granted.numbers
  · rw [opportunities, awards]
    intro opportunity member
    obtain ⟨symbol, nonneg, spent⟩ := granted.balanced opportunity member
    refine ⟨symbol, nonneg, ?_⟩
    have unspent : award.spends opportunity.fundingOpportunityNumber = 0 := by
      rw [Award.spends, created.pending]
      exact if_neg fun both => nomatch both.2
    rw [total_append, total_cons, total_nil, unspent, add_zero, add_zero]
    exact spent
  · rw [opportunities]
    exact fun opportunity member => Step.symbol_listed applied (granted.listed opportunity member)
  · rw [awards]
    intro other member
    have before := forall_append_singleton granted.placed placed other member
    refine before.later applied fun opportunity listed => ?_
    exact ⟨opportunity, opportunities ▸ listed, rfl, rfl⟩
  · rw [awards, recipients]
    intro recipient member
    rcases List.mem_append.mp member with old | new
    · obtain ⟨other, listed, same⟩ := granted.recipients recipient old
      exact ⟨other, List.mem_append_left _ listed, same⟩
    · refine ⟨award, List.mem_append_right _ List.mem_cons_self, ?_, ?_⟩
      · rw [created.number]
        rcases List.mem_cons.mp new with rfl | sub
        · rfl
        · obtain ⟨subaward, _, rfl⟩ := List.mem_map.mp sub
          rfl
      · rw [created.amount]
        exact (CreateAwardOperation.recipients_symbols divides created.computed recipient new).symm

/-! ## Decisions -/

/-- An officer decides on a pending award of the opportunity. -/
structure AwardDecision.Ready (op : AwardDecision) (award : Award)
    (opportunity : FundingOpportunity) (state : State) : Prop where
  member : award ∈ state.awards
  listed : opportunity ∈ state.opportunities
  number : op.awardNumber = award.awardNumber
  on : opportunity.fundingOpportunityNumber = award.fundingOpportunityNumber
  pending : award.status = .pending
  exists_ : state.accountExists op.officer = true
  officer : op.officer ∈ opportunity.officers

theorem awardToDecide_ok_iff (granted : Granted state) (sound : Sound state) {op : AwardDecision}
    {award : Award} {opportunity : FundingOpportunity} (decided : String) :
    awardToDecide state op decided = .ok (award, opportunity) ↔ op.Ready award opportunity state := by
  simp only [awardToDecide, State.getAward, State.getFundingOpportunity, bind_ok_iff, require_ok_iff,
    expect_ok_iff, pure_ok_iff, Prod.mk.injEq]
  constructor
  · rintro ⟨_, exists_, _, _, award, got, opportunity, found, _, officer, _, pending, rfl, rfl⟩
    have number : award.awardNumber = op.awardNumber := by simpa using List.find?_some got
    exact ⟨List.mem_of_find?_eq_some got, List.mem_of_find?_eq_some found, number.symm,
      by simpa using List.find?_some found, pending, exists_, officer⟩
  · intro ready
    have found := find?_of_nodup sound.awards.numbers ready.member
    have funded := find?_of_nodup granted.numbers ready.listed
    rw [← ready.number] at found
    rw [ready.on] at funded
    have known : state.awardExists op.awardNumber = true :=
      List.any_eq_true.mpr ⟨award, ready.member, beq_iff_eq.mpr ready.number.symm⟩
    exact ⟨(), ready.exists_, (), known, award, found, opportunity, funded, (), ready.officer, (),
      ready.pending, rfl, rfl⟩

/-- The opportunities after an award is taken out of one of them. -/
def takeOut (opportunities : List FundingOpportunity) (opportunity : FundingOpportunity)
    (award : Award) : List FundingOpportunity :=
  modifyFirst (fun other => other.id == opportunity.id) (fun other => { other with
    currentSupply := ⟨opportunity.currentSupply.amount + -award.amount.amount,
      opportunity.currentSupply.symbol⟩ }) opportunities

theorem Granted.find_id (granted : Granted state) {opportunity : FundingOpportunity}
    (listed : opportunity ∈ state.opportunities) :
    state.opportunities.find? (fun other => other.id == opportunity.id) = some opportunity := by
  refine find?_of_nodup ?_ listed
  rw [granted.ids]
  exact List.nodup_range

/-- An award that leaves something is taken out. -/
theorem adjustFundingOpportunitySupply_ok_iff (granted : Granted state) {award : Award}
    {opportunity : FundingOpportunity} {after : List FundingOpportunity} {op : AwardDecision}
    (ready : op.Ready award opportunity state) :
    adjustFundingOpportunitySupply state.opportunities opportunity.id award.amount.neg = .ok after ↔
      award.amount.amount < opportunity.currentSupply.amount ∧
        takeOut state.opportunities opportunity award = after := by
  obtain ⟨other, member, number, symbol⟩ := (granted.placed award ready.member).funded
  obtain rfl : other = opportunity :=
    List.inj_on_of_nodup_map granted.numbers member ready.listed (number.trans ready.on.symm)
  have same : other.currentSupply.symbol = award.amount.symbol :=
    (granted.balanced other member).symbol.trans symbol
  simp only [adjustFundingOpportunitySupply, granted.find_id member, bind_ok_iff, expect_ok_iff,
    pure_ok_iff, Asset.add_ok_iff, Option.some.injEq, exists_eq_left', Asset.neg]
  constructor
  · rintro ⟨_, left, _, ⟨_, rfl⟩, rfl⟩
    have left := require_ok_iff.mp left
    exact ⟨by omega, rfl⟩
  · rintro ⟨left, rfl⟩
    exact ⟨(), require_ok_iff.mpr (by omega), _, ⟨same, rfl⟩, rfl⟩

/-- What an approval does. -/
theorem approveAward_ok_iff (granted : Granted state) (sound : Sound state) {op : AwardDecision} :
    approveAward state op = .ok next ↔
      ∃ award opportunity university afterFee balances, op.Ready award opportunity state ∧
        state.getResearchGroup award.universityId = .ok university ∧
        adjustAccountBalance state.assets state.balances university.creator
          (universityFee award.amount award.universityOverhead) = .ok afterFee ∧
        payRecipients state.assets afterFee
          (state.recipients.filter fun recipient => recipient.awardNumber == op.awardNumber) =
            .ok balances ∧
        award.amount.amount < opportunity.currentSupply.amount ∧
        { state with
          balances
          opportunities := takeOut state.opportunities opportunity award
          recipients := updateRecipientsStatus state.recipients op.awardNumber .confirmed
          awards := updateAwardStatus state.awards op.awardNumber .approved } = next := by
  simp only [approveAward, bind_ok_iff, pure_ok_iff, Prod.exists, awardToDecide_ok_iff granted sound]
  constructor
  · rintro ⟨award, opportunity, ready, university, got, afterFee, fee, balances, paid, after,
      adjusted, rfl⟩
    obtain ⟨left, rfl⟩ := (adjustFundingOpportunitySupply_ok_iff granted ready).mp adjusted
    exact ⟨award, opportunity, university, afterFee, balances, ready, got, fee, paid, left, rfl⟩
  · rintro ⟨award, opportunity, university, afterFee, balances, ready, got, fee, paid, left, rfl⟩
    have adjusted := (adjustFundingOpportunitySupply_ok_iff granted ready).mpr ⟨left, rfl⟩
    exact ⟨award, opportunity, ready, university, got, afterFee, fee, balances, paid, _, adjusted,
      rfl⟩

/-- A new status of an award leaves its other columns. -/
theorem mem_updateAwardStatus {awards : List Award} {number : Name} {status : AwardStatus}
    {award : Award} (member : award ∈ updateAwardStatus awards number status) :
    ∃ old ∈ awards, award = { old with status := award.status } := by
  rcases mem_modifyFirst member with kept | ⟨row, found, rfl⟩
  · exact ⟨award, kept, rfl⟩
  · exact ⟨row, List.mem_of_find?_eq_some found, rfl⟩

/-- What a decision changes of the spent amounts. -/
theorem total_spends_update (sound : Sound state) {award : Award} (member : award ∈ state.awards)
    (pending : award.status = .pending) (status : AwardStatus) (number : Name) :
    total (Award.spends number) (updateAwardStatus state.awards award.awardNumber status) =
      total (Award.spends number) state.awards + { award with status }.spends number := by
  have found := find?_of_nodup sound.awards.numbers member
  have nothing : award.spends number = 0 := by
    rw [Award.spends, pending]
    exact if_neg fun both => nomatch both.2
  rw [updateAwardStatus, total_modifyFirst _ found, nothing, sub_zero]

/-- A decision leaves the recipients and what an award was placed on. -/
theorem Granted.decided (granted : Granted state) (applied : step.apply percentOf state = .ok next)
    {number : Name} {status : AwardStatus} {recipientStatus : RecipientStatus}
    (ids : next.opportunities.map FundingOpportunity.id =
      state.opportunities.map FundingOpportunity.id)
    (terms : next.opportunities.map (fun opportunity =>
        (opportunity.fundingOpportunityNumber, opportunity.amount)) =
      state.opportunities.map fun opportunity =>
        (opportunity.fundingOpportunityNumber, opportunity.amount))
    (balanced : ∀ opportunity ∈ next.opportunities, opportunity.Balanced next.awards)
    (awards : next.awards = updateAwardStatus state.awards number status)
    (recipients : next.recipients = updateRecipientsStatus state.recipients number recipientStatus) :
    Granted next := by
  have kept : ∀ opportunity ∈ state.opportunities, ∃ after ∈ next.opportunities,
      after.fundingOpportunityNumber = opportunity.fundingOpportunityNumber ∧
        after.amount = opportunity.amount := by
    intro opportunity member
    have term := terms ▸ List.mem_map_of_mem (f := fun opportunity : FundingOpportunity =>
      (opportunity.fundingOpportunityNumber, opportunity.amount)) member
    obtain ⟨after, listed, same⟩ := List.mem_map.mp term
    exact ⟨after, listed, congrArg Prod.fst same, congrArg Prod.snd same⟩
  constructor
  · have length : next.opportunities.length = state.opportunities.length := by
      simpa using congrArg List.length ids
    rw [ids, length]
    exact granted.ids
  · have numbers := congrArg (List.map Prod.fst) terms
    rw [List.map_map, List.map_map] at numbers
    exact numbers ▸ granted.numbers
  · exact balanced
  · intro opportunity member
    have term := terms ▸ List.mem_map_of_mem (f := fun opportunity : FundingOpportunity =>
      (opportunity.fundingOpportunityNumber, opportunity.amount)) member
    obtain ⟨before, listed, same⟩ := List.mem_map.mp term
    have amount : before.amount = opportunity.amount := congrArg Prod.snd same
    exact amount ▸ Step.symbol_listed applied (granted.listed before listed)
  · rw [awards]
    intro award member
    obtain ⟨old, listed, same⟩ := mem_updateAwardStatus member
    have placed := (granted.placed old listed).later applied kept
    rw [same]
    exact ⟨placed.funded, placed.university, placed.fee⟩
  · apply granted.recipients_later
    · rw [recipients]
      exact updateRecipientsStatus_map (fun _ _ => rfl) _ _ _
    · intro award member
      have term : award.terms ∈ next.awards.map Award.terms := by
        rw [awards, updateAwardStatus_terms]
        exact List.mem_map_of_mem member
      obtain ⟨after, listed, same⟩ := List.mem_map.mp term
      simp only [Award.terms, Prod.mk.injEq] at same
      exact ⟨after, listed, same.1, same.2.1⟩

theorem Granted.approved (granted : Granted state) (sound : Sound state)
    (applied : step.apply percentOf state = .ok next) {op : AwardDecision}
    (approved : approveAward state op = .ok next) : Granted next := by
  obtain ⟨award, opportunity, _, _, _, ready, _, _, _, left, rfl⟩ :=
    (approveAward_ok_iff granted sound).mp approved
  refine granted.decided applied (map_modifyFirst fun _ => rfl) (map_modifyFirst fun _ => rfl) ?_
    rfl rfl
  rw [ready.number]
  have ids : (state.opportunities.map FundingOpportunity.id).Nodup := by
    rw [granted.ids]
    exact List.nodup_range
  intro other member
  rcases (mem_modifyFirst_iff ids (granted.find_id ready.listed)).mp member with ⟨old, apart⟩ | rfl
  · obtain ⟨symbol, nonneg, spent⟩ := granted.balanced other old
    refine ⟨symbol, nonneg, ?_⟩
    have elsewhere : award.fundingOpportunityNumber ≠ other.fundingOpportunityNumber := by
      intro same
      have equal := List.inj_on_of_nodup_map granted.numbers ready.listed old (ready.on.trans same)
      exact apart (congrArg FundingOpportunity.id equal).symm
    rw [total_spends_update sound ready.member ready.pending, Award.spends,
      if_neg fun both => elsewhere both.1, add_zero]
    exact spent
  · obtain ⟨symbol, nonneg, spent⟩ := granted.balanced opportunity ready.listed
    refine ⟨symbol, by dsimp only; omega, ?_⟩
    dsimp only
    rw [total_spends_update sound ready.member ready.pending, Award.spends,
      if_pos ⟨ready.on.symm, rfl⟩]
    dsimp only
    omega

theorem Granted.rejected (granted : Granted state) (sound : Sound state)
    (applied : step.apply percentOf state = .ok next) {op : AwardDecision}
    (rejected : rejectAward state op = .ok next) : Granted next := by
  simp only [rejectAward, bind_ok_iff, pure_ok_iff, Prod.exists,
    awardToDecide_ok_iff granted sound] at rejected
  obtain ⟨award, opportunity, ready, rfl⟩ := rejected
  refine granted.decided applied rfl rfl ?_ rfl rfl
  rw [ready.number]
  intro other member
  obtain ⟨symbol, nonneg, spent⟩ := granted.balanced other member
  have unspent : { award with status := .rejected }.spends other.fundingOpportunityNumber = 0 :=
    if_neg (by rintro ⟨_, ⟨⟩⟩)
  refine ⟨symbol, nonneg, ?_⟩
  rw [total_spends_update sound ready.member ready.pending, unspent, add_zero]
  exact spent

/-! ## Payments of an approval -/

section Payments

variable {assets : List AssetObject} {balances after : List Balance}
  {recipients : List AwardRecipient}

/-- What the recipients of an award are paid under the keys of one balance. -/
def awardedTo (recipients : List AwardRecipient) (owner : Name) (symbol : AssetSymbol) : Int :=
  total (fun recipient => entry recipient.awardee recipient.totalAmount.symbol
    recipient.totalAmount.amount owner symbol) recipients

theorem payRecipients_free (paid : payRecipients assets balances recipients = .ok after)
    (owner : Name) (symbol : AssetSymbol) :
    free after owner symbol = free balances owner symbol + awardedTo recipients owner symbol ∧
      locked after owner symbol = locked balances owner symbol := by
  rw [payRecipients] at paid
  induction recipients generalizing balances with
  | nil =>
    obtain rfl := pure_ok_iff.mp paid
    exact ⟨(add_zero _).symm, rfl⟩
  | cons recipient rest hypothesis =>
    rw [List.foldlM_cons, bind_ok_iff] at paid
    obtain ⟨middle, first, others⟩ := paid
    obtain ⟨_, step⟩ := adjustAccountBalance_free first
    obtain ⟨later, frozen⟩ := hypothesis others
    rw [later, frozen, (step owner symbol).1, (step owner symbol).2, awardedTo, awardedTo, total_cons,
      add_assoc]
    exact ⟨rfl, rfl⟩

/-- Parts that are not negative can be paid. -/
theorem payRecipients_succeeds
    (listed : ∀ recipient ∈ recipients,
      (assets.any fun asset => asset.symbol == recipient.totalAmount.symbol) = true)
    (nonneg : ∀ recipient ∈ recipients, 0 ≤ recipient.totalAmount.amount) :
    ∃ after, payRecipients assets balances recipients = .ok after := by
  rw [payRecipients]
  induction recipients generalizing balances with
  | nil => exact ⟨balances, rfl⟩
  | cons recipient rest hypothesis =>
    rw [List.forall_mem_cons] at listed nonneg
    obtain ⟨middle, first⟩ : ∃ middle, adjustAccountBalance assets balances recipient.awardee
        recipient.totalAmount = .ok middle :=
      adjustAccountBalance_succeeds listed.1 fun debit => absurd debit (Int.not_lt.mpr nonneg.1)
    obtain ⟨after, others⟩ := @hypothesis middle listed.2 nonneg.2
    refine ⟨after, ?_⟩
    rw [List.foldlM_cons, first]
    exact others

end Payments

/-- The recipients of an award. -/
def Award.recipients (award : Award) (state : State) : List AwardRecipient :=
  state.recipients.filter fun recipient => recipient.awardNumber == award.awardNumber

/-- The fee of the university and the parts of the recipients are the award, they are what
    each account is credited, and the award is what the opportunity loses. -/
structure Award.Credits (award : Award) (opportunity : FundingOpportunity) (state next : State) :
    Prop where
  paid : ∃ university, state.getResearchGroup award.universityId = .ok university ∧
    ∀ owner symbol, free next.balances owner symbol = free state.balances owner symbol +
        entry university.creator award.amount.symbol
          (universityFee award.amount award.universityOverhead).amount owner symbol +
        awardedTo (award.recipients state) owner symbol ∧
      locked next.balances owner symbol = locked state.balances owner symbol
  symbols : ∀ recipient ∈ award.recipients state,
    recipient.totalAmount.symbol = award.amount.symbol
  whole : (universityFee award.amount award.universityOverhead).amount +
    total (fun recipient => recipient.totalAmount.amount) (award.recipients state) =
      award.amount.amount
  taken : { opportunity with
    currentSupply := ⟨opportunity.currentSupply.amount + -award.amount.amount,
      opportunity.currentSupply.symbol⟩ } ∈ next.opportunities

theorem Granted.recipient_symbol (granted : Granted state) (sound : Sound state) {award : Award}
    (member : award ∈ state.awards) :
    ∀ recipient ∈ award.recipients state, recipient.totalAmount.symbol = award.amount.symbol := by
  intro recipient listed
  obtain ⟨known, own⟩ := List.mem_filter.mp listed
  obtain ⟨other, present, number, symbol⟩ := granted.recipients recipient known
  have same : other = award := List.inj_on_of_nodup_map sound.awards.numbers present member
    (number.trans (beq_iff_eq.mp own))
  rw [← symbol, same]

theorem approveAward_credits (granted : Granted state) (sound : Sound state) {op : AwardDecision}
    {award : Award} {opportunity : FundingOpportunity} (ready : op.Ready award opportunity state)
    (approved : approveAward state op = .ok next) : award.Credits opportunity state next := by
  obtain ⟨other, another, university, afterFee, balances, also, got, fee, paid, _, rfl⟩ :=
    (approveAward_ok_iff granted sound).mp approved
  obtain rfl : other = award := List.inj_on_of_nodup_map sound.awards.numbers also.member
    ready.member (also.number.symm.trans ready.number)
  obtain rfl : another = opportunity := List.inj_on_of_nodup_map granted.numbers also.listed
    ready.listed (also.on.trans ready.on.symm)
  have symbols := granted.recipient_symbol sound ready.member
  rw [ready.number] at paid
  constructor
  · refine ⟨university, got, fun owner symbol => ?_⟩
    obtain ⟨_, first⟩ := adjustAccountBalance_free fee
    obtain ⟨later, frozen⟩ := payRecipients_free paid owner symbol
    exact ⟨later.trans (congrArg (· + _) (first owner symbol).1), frozen.trans (first owner symbol).2⟩
  · exact symbols
  · have shared := sound.awards.shared other ready.member other.amount.symbol
    have same : total (fun recipient => recipient.totalAmount.under other.amount.symbol)
        (other.recipients state) =
        total (fun recipient => recipient.totalAmount.amount) (other.recipients state) :=
      total_congr fun recipient member => if_pos (symbols recipient member)
    rw [← total_filter_toward] at shared
    rw [← same, Award.recipients, shared, Asset.under, Asset.under, universityFee, if_pos rfl,
      if_pos rfl]
    exact add_sub_cancel _ _
  · have ids : (state.opportunities.map FundingOpportunity.id).Nodup := by
      rw [granted.ids]
      exact List.nodup_range
    exact (mem_modifyFirst_iff ids (granted.find_id ready.listed)).mpr (.inr rfl)

/-- With no negative part, what leaves something of the opportunity is approved. -/
theorem approveAward_succeeds_iff (granted : Granted state) (sound : Sound state)
    (nonneg : ∀ recipient ∈ state.recipients, 0 ≤ recipient.totalAmount.amount) {op : AwardDecision}
    {award : Award} {opportunity : FundingOpportunity} (ready : op.Ready award opportunity state) :
    (∃ next, approveAward state op = .ok next) ↔
      award.amount.amount < opportunity.currentSupply.amount := by
  constructor
  · rintro ⟨next, approved⟩
    obtain ⟨other, another, _, _, _, also, _, _, _, left, _⟩ :=
      (approveAward_ok_iff granted sound).mp approved
    obtain rfl : other = award := List.inj_on_of_nodup_map sound.awards.numbers also.member
      ready.member (also.number.symm.trans ready.number)
    obtain rfl : another = opportunity := List.inj_on_of_nodup_map granted.numbers also.listed
      ready.listed (also.on.trans ready.on.symm)
    exact left
  · intro left
    have placed := granted.placed award ready.member
    obtain ⟨university, got⟩ := placed.university
    have listed : (state.assets.any fun asset => asset.symbol == award.amount.symbol) = true := by
      obtain ⟨other, member, _, symbol⟩ := placed.funded
      obtain ⟨asset, known, same⟩ := List.mem_map.mp (granted.listed other member)
      exact List.any_eq_true.mpr ⟨asset, known, beq_iff_eq.mpr (same.trans symbol)⟩
    obtain ⟨afterFee, fee⟩ : ∃ afterFee, adjustAccountBalance state.assets state.balances
        university.creator (universityFee award.amount award.universityOverhead) = .ok afterFee :=
      adjustAccountBalance_succeeds listed fun debit => absurd debit (Int.not_lt.mpr placed.fee)
    obtain ⟨balances, paid⟩ : ∃ balances, payRecipients state.assets afterFee
        (award.recipients state) = .ok balances := by
      apply payRecipients_succeeds
      · intro recipient member
        rw [granted.recipient_symbol sound ready.member recipient member]
        exact listed
      · exact fun recipient member => nonneg recipient (List.mem_of_mem_filter member)
    rw [Award.recipients, ← ready.number] at paid
    exact ⟨_, (approveAward_ok_iff granted sound).mpr
      ⟨award, opportunity, university, afterFee, balances, ready, got, fee, paid, left, rfl⟩⟩

/-! ## Runs -/

/-- Every step keeps the opportunities balanced. -/
theorem Step.granted (granted : Granted state) (sound : Sound state)
    (applied : step.apply percentOf state = .ok next) : Granted next := by
  have untouched := Step.untouched applied
  cases step with
  | operation op =>
    have evaluated := applied
    simp only [apply, Operation.apply, bind_ok_iff] at evaluated
    obtain ⟨_, valid, _, _, evaluated⟩ := evaluated
    cases op with
    | createGrant op =>
      rcases op.apply_opens valid evaluated with same | ⟨opportunity, opens, id, full, positive,
        listed, fresh⟩
      · exact granted.framed applied same (untouched.awards rfl)
          (congrArg _ (untouched.recipients rfl))
      · exact granted.opened applied opens (untouched.awards rfl) (untouched.recipients rfl) id full
          positive listed fresh
    | createAward op =>
      obtain ⟨parts, award, created⟩ := op.apply_created evaluated
      exact granted.awarded applied valid created
    | approveAward op => exact granted.approved sound applied evaluated
    | rejectAward op => exact granted.rejected sound applied evaluated
    | payAwardWithdrawalRequest op =>
      simp only [Operation.evaluate, Ledger.payAwardWithdrawalRequest, adjustExpenses, bind_ok_iff,
        pure_ok_iff] at evaluated
      obtain ⟨_, _, _, _, _, _, _, _, _, _, _, _, _, _, recipients, ⟨_, _, rfl⟩, _, _, _, _, _, _,
        rfl⟩ := evaluated
      exact granted.framed applied rfl rfl (map_modifyFirst fun _ => rfl)
    | _ =>
      exact granted.framed applied (untouched.opportunities rfl) (untouched.awards rfl)
        (congrArg _ (untouched.recipients rfl))
  | _ =>
    exact granted.framed applied (untouched.opportunities rfl) (untouched.awards rfl)
      (congrArg _ (untouched.recipients rfl))

theorem steps_granted (granted : Granted state) (sound : Sound state)
    (ran : steps.foldlM (Step.apply percentOf) state = .ok next) : Granted next := by
  refine (foldlM_invariant (fun _ reached => Granted reached ∧ Sound reached) ?_ ⟨granted, sound⟩
    ran).1
  rintro step rest state next ⟨granted, sound⟩ applied
  exact ⟨Step.granted granted sound applied, (Step.apply_sound applied).sound sound⟩

theorem run_granted (ran : run percentOf genesis steps = .ok state) : Granted state := by
  obtain ⟨start, inited, ran⟩ := run_ok_iff.mp ran
  obtain ⟨assets, _, framed⟩ := GenesisState.init_framed inited
  have blank := Untouched.of_rest framed.1
  have opportunities : start.opportunities = [] := blank.opportunities rfl
  have awards : start.awards = [] := blank.awards rfl
  have recipients : start.recipients = [] := blank.recipients rfl
  refine steps_granted ⟨?_, ?_, ?_, ?_, ?_, ?_⟩ (GenesisState.init_books inited).1 ran
  · rw [opportunities]
    rfl
  · rw [opportunities]
    exact List.nodup_nil
  · rw [opportunities]
    exact List.forall_mem_nil _
  · rw [opportunities]
    exact List.forall_mem_nil _
  · rw [awards]
    exact List.forall_mem_nil _
  · rw [recipients]
    exact List.forall_mem_nil _

/-- No recipient has a negative part. -/
def State.PartsNonneg (state : State) : Prop :=
  ∀ recipient ∈ state.recipients, 0 ≤ recipient.totalAmount.amount

theorem AwardStep.partsNonneg (stepped : AwardStep step state next)
    (covers : step.coversDirect = true) (nonneg : state.PartsNonneg) : next.PartsNonneg := by
  have of_parts : next.recipients.map AwardRecipient.part =
      state.recipients.map AwardRecipient.part → next.PartsNonneg := by
    intro parts recipient member
    have part := parts ▸ List.mem_map_of_mem (f := AwardRecipient.part) member
    obtain ⟨old, listed, same⟩ := List.mem_map.mp part
    have amount : old.totalAmount = recipient.totalAmount := congrArg Prod.snd same
    exact amount ▸ nonneg old listed
  cases stepped with
  | framed recipients | requested _ _ _ _ _ _ _ recipients | moved _ _ _ _ _ recipients =>
    exact of_parts (congrArg _ recipients)
  | created op parts award isCreation divides created =>
    rw [isCreation] at covers
    rw [State.PartsNonneg, created.result]
    intro recipient member
    rcases List.mem_append.mp member with old | new
    · exact nonneg recipient old
    · exact op.recipients_nonneg divides created.computed covers recipient new
  | decided number status recipients =>
    apply of_parts
    rw [recipients]
    exact updateRecipientsStatus_map (fun _ _ => rfl) _ _ _
  | paid _ _ _ _ _ _ _ _ recipients =>
    apply of_parts
    rw [recipients]
    exact map_modifyFirst fun _ => rfl

theorem run_partsNonneg (covers : ∀ step ∈ steps, step.coversDirect = true)
    (ran : run percentOf genesis steps = .ok state) : state.PartsNonneg := by
  obtain ⟨start, inited, ran⟩ := run_ok_iff.mp ran
  obtain ⟨sound, _, holds⟩ := GenesisState.init_books inited
  obtain ⟨recipients, _⟩ := holds (.awarded [] []) ⟨rfl, rfl⟩
  have begun : start.PartsNonneg := by
    rw [State.PartsNonneg, recipients]
    exact List.forall_mem_nil _
  refine (foldlM_along (fun reached => Sound reached ∧ reached.PartsNonneg) ?_
    (Along.of_forall (fun step member _ => covers step member) start) ⟨sound, begun⟩ ran).2
  rintro step state next covers ⟨sound, nonneg⟩ applied
  exact ⟨(Step.apply_sound applied).sound sound,
    (Step.awardStep sound applied).partsNonneg covers nonneg⟩

/-- A decision on a pending award approves it exactly if what is left covers it, and then
    credits what it takes. -/
structure AwardDecision.Correct (op : AwardDecision) (award : Award)
    (opportunity : FundingOpportunity) (state : State) : Prop where
  approves : (∃ next, approveAward state op = .ok next) ↔
    award.amount.amount ≤ opportunity.currentSupply.amount
  credits : ∀ next, approveAward state op = .ok next → award.Credits opportunity state next

/-- What is left of each opportunity and its approved awards are always its amount. If no
    subaward is passed on beyond its amount, the award that would use an opportunity up is the
    only one whose approval goes wrong. -/
theorem run_opportunities (percentOf : Int → Int → Int) (genesis : GenesisState)
    (steps : List Step) (state : State) (ran : run percentOf genesis steps = .ok state) :
    (∀ opportunity ∈ state.opportunities, opportunity.Balanced state.awards) ∧
    ((∀ step ∈ steps, step.coversDirect = true) → ∀ (op : AwardDecision) (award : Award)
      (opportunity : FundingOpportunity), op.Ready award opportunity state →
        (op.Correct award opportunity state ↔
          award.amount.amount ≠ opportunity.currentSupply.amount)) := by
  have granted := run_granted ran
  have sound := run_sound ran
  refine ⟨granted.balanced, fun covers op award opportunity ready => ?_⟩
  have succeeds := approveAward_succeeds_iff granted sound (run_partsNonneg covers ran) ready
  constructor
  · intro correct used
    have fits := succeeds.mp (correct.approves.mpr used.le)
    omega
  · intro left
    refine ⟨succeeds.trans ⟨le_of_lt, fun fits => lt_of_le_of_ne fits left⟩, fun next => ?_⟩
    exact approveAward_credits granted sound ready

/-- A second award from what the first one left of the grant. -/
def Sample.second (amount : Int) : CreateAwardOperation where
  awardNumber := "second"
  fundingOpportunityNumber := "grant"
  award := ⟨amount, usdSymbol⟩
  awardee := "carol"
  researchExternalId := "lens"
  universityExternalId := "bob"
  universityOverhead := ⟨500, 2⟩
  subawardees := [⟨"third", ⟨20, usdSymbol⟩, "bob", "carol", "lens"⟩]
  creator := "alice"

def Sample.awards (amount : Int) : List Step :=
  (Sample.block 1 (Sample.award.take 5 ++ [.createAward (Sample.second amount)])).steps

/-- Finds an award that can be decided and passes a test with its opportunity. -/
def AwardDecision.finds (op : AwardDecision) (test : Award → FundingOpportunity → Bool)
    (state : State) : Bool :=
  state.awards.any fun award => state.opportunities.any fun opportunity =>
    op.awardNumber == award.awardNumber &&
      opportunity.fundingOpportunityNumber == award.fundingOpportunityNumber &&
      award.status == .pending && state.accountExists op.officer &&
      decide (op.officer ∈ opportunity.officers) && test award opportunity

theorem AwardDecision.exists_ready {op : AwardDecision} {test : Award → FundingOpportunity → Bool}
    (finds : op.finds test state = true) :
    ∃ award opportunity, op.Ready award opportunity state ∧ test award opportunity = true := by
  obtain ⟨award, member, finds⟩ := List.any_eq_true.mp finds
  obtain ⟨opportunity, listed, finds⟩ := List.any_eq_true.mp finds
  simp only [Bool.and_eq_true, beq_iff_eq, decide_eq_true_eq] at finds
  obtain ⟨⟨⟨⟨⟨number, on⟩, pending⟩, exists_⟩, officer⟩, passes⟩ := finds
  exact ⟨award, opportunity, ⟨member, listed, number, on, pending, exists_, officer⟩, passes⟩

/-- All but one unit of what is left is awarded. -/
theorem run_opportunities_sample : ∃ state award opportunity,
    run Sample.percentOf Sample.genesis (Sample.awards 399) = .ok state ∧
      (AwardDecision.mk "second" "alice").Correct award opportunity state := by
  obtain ⟨state, ran, finds⟩ := exists_ok_of_any
    (run Sample.percentOf Sample.genesis (Sample.awards 399))
    ((AwardDecision.mk "second" "alice").finds fun award opportunity =>
      award.amount.amount != opportunity.currentSupply.amount) (by decide +kernel)
  obtain ⟨award, opportunity, ready, left⟩ := AwardDecision.exists_ready finds
  refine ⟨state, award, opportunity, ran, ?_⟩
  exact ((run_opportunities _ _ _ _ ran).2 (by decide +kernel) _ _ _ ready).mpr
    (bne_iff_ne.mp left)

/-- All that is left is awarded, and the award cannot be approved. -/
theorem run_opportunities_fails : ∃ state award opportunity,
    run Sample.percentOf Sample.genesis (Sample.awards 400) = .ok state ∧
      (AwardDecision.mk "second" "alice").Ready award opportunity state ∧
      ¬ (AwardDecision.mk "second" "alice").Correct award opportunity state := by
  obtain ⟨state, ran, finds⟩ := exists_ok_of_any
    (run Sample.percentOf Sample.genesis (Sample.awards 400))
    (fun state => (AwardDecision.mk "second" "alice").finds (fun award opportunity =>
        award.amount.amount == opportunity.currentSupply.amount) state &&
      (approveAward state ⟨"second", "alice"⟩).toOption.isNone) (by decide +kernel)
  rw [Bool.and_eq_true] at finds
  obtain ⟨award, opportunity, ready, used⟩ := AwardDecision.exists_ready finds.1
  refine ⟨state, award, opportunity, ran, ready, fun correct => ?_⟩
  obtain ⟨next, approved⟩ := correct.approves.mpr (beq_iff_eq.mp used).le
  have refused := finds.2
  rw [approved] at refused
  cases refused

end DeipChain.Ledger
