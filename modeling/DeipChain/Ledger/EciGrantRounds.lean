import DeipChain.Ledger.EciGrants

/-!
# Rounds of the distribution of grants

A round comes to a closed grant. It refunds the grant if there are too few applications or no eligible
ones, and removes it. Otherwise it distributes the grant, and then throws unless something of the supply
remains. A round leaves the other grants and their applications alone, so that what it does for a grant
is what it would do at the start of the call.
-/
namespace DeipChain.EciGrants

open Ledger Result Table

variable {hash : Name → Name} {state next : State} {opportunity other : FundingOpportunity}

/-! ## What the functions leave alone -/

/-- The balances have changed by the recorded payments, one after the other. -/
structure Logged (state next : State) : Prop where
  assets : next.assets = state.assets
  booked : ∃ made, next.paid = state.paid ++ made ∧
    made.foldlM (fun balances payment =>
      adjustAccountBalance state.assets balances payment.account payment.amount) state.balances =
      .ok next.balances

theorem Logged.of_same (assets : next.assets = state.assets) (paid : next.paid = state.paid)
    (balances : next.balances = state.balances) : Logged state next :=
  ⟨assets, [], by rw [paid, List.append_nil], by rw [balances]; rfl⟩

theorem Logged.trans {middle : State} (first : Logged state middle) (second : Logged middle next) :
    Logged state next := by
  obtain ⟨made, paid, booked⟩ := first.booked
  obtain ⟨more, later, added⟩ := second.booked
  refine ⟨second.assets.trans first.assets, made ++ more, ?_, ?_⟩
  · rw [later, paid, List.append_assoc]
  · rw [List.foldlM_append, booked]
    rw [first.assets] at added
    exact added

/-- A step of a distribution: only awards, their recipients and the balances change. -/
structure Steady (state next : State) : Prop extends Logged state next where
  opportunities : next.opportunities = state.opportunities
  applications : next.applications = state.applications
  researches : next.researches = state.researches

theorem Steady.trans {middle : State} (first : Steady state middle) (second : Steady middle next) :
    Steady state next where
  toLogged := first.toLogged.trans second.toLogged
  opportunities := second.opportunities.trans first.opportunities
  applications := second.applications.trans first.applications
  researches := second.researches.trans first.researches

theorem Steady.refl (state : State) : Steady state state :=
  ⟨Logged.of_same rfl rfl rfl, rfl, rfl, rfl⟩

theorem pay_steady {id : Nat} {account : Name} {amount : Asset}
    (ran : state.pay id account amount = .ok next) : Steady state next := by
  simp only [State.pay, bind_ok_iff, pure_ok_iff] at ran
  obtain ⟨balances, adjusted, rfl⟩ := ran
  exact ⟨⟨rfl, _, rfl, by rw [List.foldlM_cons, adjusted]; rfl⟩, rfl, rfl, rfl⟩

theorem createAward_steady {award : Award} (ran : state.createAward award = .ok next) :
    Steady state next := by
  simp only [State.createAward, bind_ok_iff, pure_ok_iff] at ran
  obtain ⟨_, -, rfl⟩ := ran
  exact ⟨Logged.of_same rfl rfl rfl, rfl, rfl, rfl⟩

theorem createAwardRecipient_steady {recipient : AwardRecipient}
    (ran : state.createAwardRecipient recipient = .ok next) : Steady state next := by
  simp only [State.createAwardRecipient, bind_ok_iff, pure_ok_iff] at ran
  obtain ⟨_, -, rfl⟩ := ran
  exact ⟨Logged.of_same rfl rfl rfl, rfl, rfl, rfl⟩

theorem adjustExpenses_steady {id : Nat} {delta : Asset} (ran : state.adjustExpenses id delta = .ok next) :
    Steady state next := by
  simp only [State.adjustExpenses, bind_ok_iff, pure_ok_iff] at ran
  obtain ⟨_, -, _, -, rfl⟩ := ran
  exact ⟨Logged.of_same rfl rfl rfl, rfl, rfl, rfl⟩

theorem Granting.award_steady {totalEci : Int} {granting granted : Granting} {researchEci : Int × Nat}
    (ran : granting.award hash opportunity totalEci researchEci = .ok granted) :
    Steady granting.state granted.state := by
  simp only [Granting.award, bind_ok_iff, pure_ok_iff] at ran
  obtain ⟨reward, -, research, -, group, -, awarded, created, received, recipient, paid, payment,
    expensed, adjusted, used, -, rfl⟩ := ran
  have steady : Steady granting.state expensed :=
    (((createAward_steady created).trans (createAwardRecipient_steady recipient)).trans
      (pay_steady payment)).trans (adjustExpenses_steady adjusted)
  split
  · exact steady
  · exact steady

theorem Granting.payRemainder_steady {granting : Granting}
    (ran : granting.payRemainder opportunity = .ok next) : Steady granting.state next := by
  simp only [Granting.payRemainder, bind_ok_iff, pure_ok_iff] at ran
  obtain ⟨remainder, -, award, -, recipient, -, group, -, paid, payment, _, -, _, -, _, -, rfl⟩ := ran
  exact (pay_steady payment).trans ⟨Logged.of_same rfl rfl rfl, rfl, rfl, rfl⟩

/-- A distribution that returns leaves some of the supply, and the grant where it is. -/
theorem grant_ok {researches : List (Int × Nat)}
    (ran : state.grant hash opportunity researches = .ok next) :
    ∃ granted, Steady state granted ∧ ∃ found supply,
      state.opportunities.find? (fun other => other.id == opportunity.id) = some found ∧
      0 < supply.amount ∧ next = { granted with
        opportunities := modifyFirst (fun other => other.id == opportunity.id)
          (fun other => { other with currentSupply := supply }) state.opportunities } := by
  simp only [State.grant, bind_ok_iff] at ran
  obtain ⟨granting, looped, _, -, below, -, rest⟩ := ran
  have awarded := foldlM_invariant (fun _ granting => Steady state granting.state)
    (fun _ _ _ _ steady stepped => steady.trans (Granting.award_steady stepped)) (Steady.refl state) looped
  obtain ⟨granted, steady, adjusted⟩ : ∃ granted, Steady state granted ∧
      granted.adjustFundingOpportunitySupply opportunity.id granting.used.neg = .ok next := by
    cases below with
    | false => exact ⟨granting.state, awarded, rest⟩
    | true =>
      obtain ⟨granted, remainder, adjusted⟩ := bind_ok_iff.mp rest
      exact ⟨granted, awarded.trans (Granting.payRemainder_steady remainder), adjusted⟩
  simp only [State.adjustFundingOpportunitySupply, bind_ok_iff, expect_ok_iff, require_ok_iff,
    pure_ok_iff] at adjusted
  obtain ⟨found, listed, _, positive, supply, added, rfl⟩ := adjusted
  obtain ⟨-, rfl⟩ := Asset.add_ok_iff.mp added
  rw [steady.opportunities] at listed ⊢
  exact ⟨granted, steady, found, _, listed, positive, rfl⟩

/-! ## Applications -/

/-- What the other operations keep: applications have their researches, and grants their assets. -/
structure Sound (state : State) : Prop where
  applications : (state.applications.map GrantApplication.id).Nodup
  researches : ∀ application ∈ state.applications, ∃ research ∈ state.researches,
    research.id = application.researchId
  assets : ∀ opportunity ∈ state.opportunities,
    (state.assets.any fun asset => asset.symbol == opportunity.amount.symbol) = true

/-- The positive reviews of the research of an application. -/
def State.positiveReviews (state : State) (application : GrantApplication) : Nat :=
  ((state.researches.find? fun research => research.id == application.researchId).map
    Research.numberOfPositiveReviews).getD 0

/-- The applications of researches with enough positive reviews. -/
def State.eligible (opportunity : FundingOpportunity) (state : State) : List GrantApplication :=
  (state.applicationsOf opportunity.fundingOpportunityNumber).filter fun application =>
    decide (opportunity.minNumberOfPositiveReviews ≤ state.positiveReviews application)

def State.TooFew (opportunity : FundingOpportunity) (state : State) : Prop :=
  (state.applicationsOf opportunity.fundingOpportunityNumber).length <
    opportunity.minNumberOfApplications

/-- The grant goes back to the grantor if it is closed. -/
def Refundable (state : State) (opportunity : FundingOpportunity) : Prop :=
  state.TooFew opportunity ∨ state.eligible opportunity = []

/-- The state without the applications that are not eligible. -/
def State.reviewed (opportunity : FundingOpportunity) (state : State) : State :=
  { state with
    applications := state.applications.filter fun application =>
      decide (¬ (application.fundingOpportunityNumber = opportunity.fundingOpportunityNumber ∧
        state.positiveReviews application < opportunity.minNumberOfPositiveReviews)) }

theorem applicationsToDelete_ok (sound : Sound state) :
    state.applicationsToDelete opportunity =
      .ok (((state.applicationsOf opportunity.fundingOpportunityNumber).filter fun application =>
        decide (state.positiveReviews application < opportunity.minNumberOfPositiveReviews)).map
          GrantApplication.id) := by
  have each : ∀ application ∈ state.applicationsOf opportunity.fundingOpportunityNumber,
      (do
        let research ← state.getResearch application.researchId
        return (application.id, research.numberOfPositiveReviews)) =
      (.ok (application.id, state.positiveReviews application) : Except String (Nat × Nat)) := by
    intro application member
    obtain ⟨research, listed, same⟩ := sound.researches application (List.mem_of_mem_filter member)
    obtain ⟨found, known⟩ : ∃ found, (state.researches.find? fun research =>
        research.id == application.researchId) = some found :=
      Option.isSome_iff_exists.mp (List.find?_isSome.mpr ⟨research, listed, beq_iff_eq.mpr same⟩)
    simp only [State.getResearch, State.positiveReviews, known]
    rfl
  rw [State.applicationsToDelete, mapM_ok each]
  simp only [pure, Except.pure, bind, Except.bind, List.filter_map, List.map_map]
  rfl

/-- Applications are deleted one after the other. -/
theorem deleteGrantApplications_ok {ids : List Nat} (distinct : ids.Nodup)
    (unique : (state.applications.map GrantApplication.id).Nodup)
    (known : ∀ id ∈ ids, id ∈ state.applications.map GrantApplication.id) :
    ids.foldlM State.deleteGrantApplication state = .ok { state with
      applications := state.applications.filter fun application => decide (application.id ∉ ids) } := by
  induction ids generalizing state with
  | nil => simp [pure, Except.pure]
  | cons id rest hypothesis =>
    rw [List.nodup_cons] at distinct
    obtain ⟨application, listed, rfl⟩ := List.mem_map.mp (known id List.mem_cons_self)
    have found : (state.applications.find? fun other => other.id == application.id) = some application :=
      find?_of_nodup unique listed
    have deleted : state.deleteGrantApplication application.id = .ok { state with
        applications := state.applications.filter fun other => decide (other.id ≠ application.id) } := by
      rw [State.deleteGrantApplication, found, eraseP_eq_filter unique]
      rfl
    have remaining : ∀ id ∈ rest, id ∈ (state.applications.filter fun other =>
        decide (other.id ≠ application.id)).map GrantApplication.id := by
      intro id member
      obtain ⟨other, there, rfl⟩ := List.mem_map.mp (known id (List.mem_cons_of_mem _ member))
      refine List.mem_map_of_mem (List.mem_filter.mpr ⟨there, decide_eq_true ?_⟩)
      rintro same
      exact distinct.1 (same ▸ member)
    rw [List.foldlM_cons, deleted]
    refine (hypothesis distinct.2 (unique.sublist (List.filter_sublist.map _)) remaining).trans ?_
    simp only [List.filter_filter, List.mem_cons, not_or, Bool.decide_and, Bool.and_comm]

/-- The check of the reviews deletes what is not eligible. -/
theorem reviewed_ok (sound : Sound state) :
    (do (← state.applicationsToDelete opportunity).foldlM State.deleteGrantApplication state) =
      .ok (state.reviewed opportunity) := by
  rw [applicationsToDelete_ok sound]
  have part : ((state.applicationsOf opportunity.fundingOpportunityNumber).filter fun application =>
      decide (state.positiveReviews application < opportunity.minNumberOfPositiveReviews)).Sublist
      state.applications := List.filter_sublist.trans List.filter_sublist
  refine (deleteGrantApplications_ok (sound.applications.sublist (part.map _)) sound.applications
    fun id member => (part.map _).subset member).trans ?_
  rw [State.reviewed]
  congr 3
  refine List.filter_congr fun application member => ?_
  rw [decide_eq_decide, not_iff_not, List.mem_map]
  constructor
  · rintro ⟨other, listed, same⟩
    obtain rfl := List.inj_on_of_nodup_map sound.applications (part.subset listed) member same
    simpa [State.applicationsOf, member, and_comm] using listed
  · rintro ⟨number, few⟩
    refine ⟨application, ?_, rfl⟩
    simp [State.applicationsOf, member, number, few]

theorem applicationsOf_reviewed : (state.reviewed opportunity).applicationsOf
    opportunity.fundingOpportunityNumber = state.eligible opportunity := by
  simp only [State.applicationsOf, State.reviewed, State.eligible, List.filter_filter]
  refine List.filter_congr fun application _ => ?_
  rw [Bool.eq_iff_iff]
  simp only [Bool.and_eq_true, beq_iff_eq, decide_eq_true_eq]
  constructor
  · rintro ⟨number, kept⟩
    exact ⟨Nat.le_of_not_lt fun few => kept ⟨number, few⟩, number⟩
  · rintro ⟨enough, number⟩
    exact ⟨number, fun both => Nat.not_lt.mpr enough both.2⟩

/-- The applications for other grants stay. -/
theorem applicationsOf_reviewed_apart {number : Name}
    (apart : number ≠ opportunity.fundingOpportunityNumber) :
    (state.reviewed opportunity).applicationsOf number = state.applicationsOf number := by
  simp only [State.applicationsOf, State.reviewed, List.filter_filter]
  refine List.filter_congr fun application _ => ?_
  rw [Bool.eq_iff_iff]
  simp only [Bool.and_eq_true, beq_iff_eq, decide_eq_true_eq]
  constructor
  · exact And.left
  · exact fun same => ⟨same, fun both => apart (same.symm.trans both.1)⟩

/-! ## Rounds -/

/-- The state in which a round begins to work. -/
def State.mark (opportunity : FundingOpportunity) (state : State) : State :=
  { state with processed := opportunity.id :: state.processed }

/-- A round refunds or distributes. -/
theorem processFundingOpportunity_eq (sound : Sound state) :
    state.processFundingOpportunity hash opportunity =
      if (state.applicationsOf opportunity.fundingOpportunityNumber).length <
          opportunity.minNumberOfApplications then
        (state.mark opportunity).attempt ((state.mark opportunity).removeFundingOpportunity opportunity)
      else if state.eligible opportunity = [] then
        ((state.mark opportunity).reviewed opportunity).attempt
          (((state.mark opportunity).reviewed opportunity).removeFundingOpportunity opportunity)
      else ((state.mark opportunity).reviewed opportunity).distributeFundingOpportunity hash opportunity := by
  have marked : Sound (state.mark opportunity) := ⟨sound.applications, sound.researches, sound.assets⟩
  have left : ((state.mark opportunity).reviewed opportunity).applicationsOf
      opportunity.fundingOpportunityNumber = state.eligible opportunity := applicationsOf_reviewed
  rw [State.processFundingOpportunity]
  refine if_congr Iff.rfl rfl ?_
  rw [← State.mark, reviewed_ok marked]
  exact if_congr (by rw [left, List.length_eq_zero_iff]) rfl rfl

theorem attempt_returned {result : Except String State} :
    state.attempt result = .returned next ↔ result = .ok next := by
  cases result <;> simp [State.attempt]

/-- A refund: the payment, and the removal. -/
theorem removeFundingOpportunity_ok (ran : state.removeFundingOpportunity opportunity = .ok next) :
    ∃ paid, Steady state paid ∧
      paid.paid = state.paid ++ [⟨opportunity.id, opportunity.grantor, opportunity.amount⟩] ∧
      paid.processed = state.processed ∧ paid.nextOpportunity = state.nextOpportunity ∧
      paid.headBlockTime = state.headBlockTime ∧ next = { paid with
        opportunities := state.opportunities.eraseP fun other => other.id == opportunity.id } := by
  simp only [State.removeFundingOpportunity, bind_ok_iff, pure_ok_iff] at ran
  obtain ⟨paid, payment, rfl⟩ := ran
  have steady := pay_steady payment
  simp only [State.pay, bind_ok_iff, pure_ok_iff] at payment
  obtain ⟨balances, -, rfl⟩ := payment
  exact ⟨_, steady, rfl, rfl, rfl, rfl, rfl⟩

theorem removeFundingOpportunity_runs (sound : Sound state) (listed : opportunity ∈ state.opportunities)
    (positive : 0 < opportunity.amount.amount) :
    ∃ next, state.removeFundingOpportunity opportunity = .ok next := by
  obtain ⟨balances, adjusted⟩ : ∃ balances, adjustAccountBalance state.assets state.balances
      opportunity.grantor opportunity.amount = .ok balances :=
    adjustAccountBalance_succeeds (sound.assets opportunity listed) fun negative =>
      absurd negative (by omega)
  exact ⟨_, by rw [State.removeFundingOpportunity, State.pay, adjusted]; rfl⟩

/-- The fields of a grant that no function changes. -/
def FundingOpportunity.terms (opportunity : FundingOpportunity) : Nat × Name × Asset :=
  (opportunity.id, opportunity.fundingOpportunityNumber, opportunity.amount)

/-- A round for a grant leaves the other grants and their applications alone. -/
structure Framed (opportunity : FundingOpportunity) (state next : State) : Prop extends Logged state next where
  applications : ∀ number ≠ opportunity.fundingOpportunityNumber,
    next.applicationsOf number = state.applicationsOf number
  remaining : next.applications.Sublist state.applications
  researches : next.researches = state.researches
  others : ∀ other, other.id ≠ opportunity.id →
    (other ∈ next.opportunities ↔ other ∈ state.opportunities)
  terms : (next.opportunities.map FundingOpportunity.terms).Sublist
    (state.opportunities.map FundingOpportunity.terms)

theorem Framed.trans {middle : State} (first : Framed opportunity state middle)
    (second : Framed opportunity middle next) : Framed opportunity state next where
  toLogged := first.toLogged.trans second.toLogged
  applications number apart := (second.applications number apart).trans (first.applications number apart)
  remaining := second.remaining.trans first.remaining
  researches := second.researches.trans first.researches
  others other apart := (second.others other apart).trans (first.others other apart)
  terms := second.terms.trans first.terms

theorem framed_mark : Framed opportunity state (state.mark opportunity) :=
  ⟨Logged.of_same rfl rfl rfl, fun _ _ => rfl, List.Sublist.refl _, rfl, fun _ _ => Iff.rfl,
    List.Sublist.refl _⟩

theorem framed_reviewed : Framed opportunity state (state.reviewed opportunity) :=
  ⟨Logged.of_same rfl rfl rfl, fun _ apart => applicationsOf_reviewed_apart apart,
    List.filter_sublist, rfl, fun _ _ => Iff.rfl, List.Sublist.refl _⟩

theorem Steady.framed {granted : State} (steady : Steady state granted)
    {opportunities : List FundingOpportunity}
    (others : ∀ other, other.id ≠ opportunity.id →
      (other ∈ opportunities ↔ other ∈ state.opportunities))
    (terms : (opportunities.map FundingOpportunity.terms).Sublist
      (state.opportunities.map FundingOpportunity.terms)) :
    Framed opportunity state { granted with opportunities } where
  assets := steady.assets
  booked := steady.booked
  applications number _ := by
    simp only [State.applicationsOf, steady.applications]
  remaining := by
    rw [← steady.applications]
  researches := steady.researches
  others := others
  terms := terms

theorem framed_remove (ran : state.removeFundingOpportunity opportunity = .ok next) :
    Framed opportunity state next := by
  obtain ⟨paid, steady, -, -, -, -, rfl⟩ := removeFundingOpportunity_ok ran
  refine steady.framed ?_ (List.eraseP_sublist.map _)
  exact fun other apart => List.mem_eraseP_of_neg (by simpa using apart)

/-- A distribution that returns keeps the grant with some of its supply. -/
theorem distribute_returned
    (ran : state.distributeFundingOpportunity hash opportunity = .returned next) :
    Framed opportunity state next ∧
      ∃ after ∈ next.opportunities, after.id = opportunity.id ∧ 0 < after.currentSupply.amount := by
  rw [State.distributeFundingOpportunity] at ran
  split at ran
  · cases ran
  · rename_i researches _
    simp only at ran
    split at ran
    · cases ran
    · obtain ⟨granted, steady, found, supply, known, positive, rfl⟩ := grant_ok (attempt_returned.mp ran)
      have own : found.id = opportunity.id := by simpa using List.find?_some known
      refine ⟨steady.framed ?_ ?_, _, change_mem_modifyFirst known, own, positive⟩
      · intro other apart
        constructor
        · intro member
          rcases mem_modifyFirst member with old | ⟨row, hit, rfl⟩
          · exact old
          · exact absurd (by simpa using List.find?_some hit) apart
        · exact fun member => mem_modifyFirst_of_not member (by simpa using apart)
      · rw [map_modifyFirst (by exact fun _ => rfl)]

theorem framed_round (sound : Sound state)
    (ran : state.processFundingOpportunity hash opportunity = .returned next) :
    Framed opportunity state next := by
  rw [processFundingOpportunity_eq sound] at ran
  split at ran
  · exact framed_mark.trans (framed_remove (attempt_returned.mp ran))
  · split at ran
    · exact (framed_mark.trans framed_reviewed).trans (framed_remove (attempt_returned.mp ran))
    · exact (framed_mark.trans framed_reviewed).trans (distribute_returned ran).1

/-- A round that does not refund leaves some of the supply. -/
theorem round_refunds (sound : Sound state)
    (ran : state.processFundingOpportunity hash opportunity = .returned next) :
    Refundable state opportunity ∨
      ∃ after ∈ next.opportunities, after.id = opportunity.id ∧ 0 < after.currentSupply.amount := by
  rw [processFundingOpportunity_eq sound] at ran
  split at ran
  · exact .inl (.inl ‹_›)
  · split at ran
    · exact .inl (.inr ‹_›)
    · exact .inr (distribute_returned ran).2

/-- What a refund leaves. -/
structure Refunded (opportunity : FundingOpportunity) (state next : State) : Prop where
  opportunities : next.opportunities = state.opportunities.eraseP fun other => other.id == opportunity.id
  paid : next.paid = state.paid ++ [⟨opportunity.id, opportunity.grantor, opportunity.amount⟩]
  processed : next.processed = opportunity.id :: state.processed
  nextOpportunity : next.nextOpportunity = state.nextOpportunity
  headBlockTime : next.headBlockTime = state.headBlockTime

theorem round_refunded (sound : Sound state) (listed : opportunity ∈ state.opportunities)
    (positive : 0 < opportunity.amount.amount) (refundable : Refundable state opportunity) :
    ∃ next, state.processFundingOpportunity hash opportunity = .returned next ∧
      Refunded opportunity state next := by
  have marked : Sound (state.mark opportunity) := ⟨sound.applications, sound.researches, sound.assets⟩
  rw [processFundingOpportunity_eq sound]
  split
  · obtain ⟨next, ran⟩ := removeFundingOpportunity_runs marked listed positive
    obtain ⟨paid, steady, log, processed, counter, time, rfl⟩ := removeFundingOpportunity_ok ran
    exact ⟨_, attempt_returned.mpr ran, rfl, log, processed, counter, time⟩
  · rename_i enough
    rw [if_pos (refundable.resolve_left enough)]
    have reviewed : Sound ((state.mark opportunity).reviewed opportunity) :=
      ⟨marked.applications.sublist (List.filter_sublist.map _),
        fun application member => marked.researches application (List.mem_of_mem_filter member),
        marked.assets⟩
    obtain ⟨next, ran⟩ := removeFundingOpportunity_runs reviewed listed positive
    obtain ⟨paid, steady, log, processed, counter, time, rfl⟩ := removeFundingOpportunity_ok ran
    exact ⟨_, attempt_returned.mpr ran, rfl, log, processed, counter, time⟩

/-! ## The loop over the closed grants -/

/-- The unique keys of the grants. -/
structure Indexed (state : State) : Prop where
  ids : (state.opportunities.map FundingOpportunity.id).Nodup
  numbers : (state.opportunities.map FundingOpportunity.fundingOpportunityNumber).Nodup

theorem Framed.sound (framed : Framed opportunity state next) (sound : Sound state) : Sound next where
  applications := sound.applications.sublist (framed.remaining.map _)
  researches application member := by
    rw [framed.researches]
    exact sound.researches application (framed.remaining.subset member)
  assets other member := by
    obtain ⟨old, listed, same⟩ := List.mem_map.mp (framed.terms.subset (List.mem_map_of_mem member))
    have amount : old.amount = other.amount := congrArg (fun terms => terms.2.2) same
    rw [framed.assets, ← amount]
    exact sound.assets old listed

theorem Framed.indexed (framed : Framed opportunity state next) (indexed : Indexed state) :
    Indexed next where
  ids := by
    have ids := framed.terms.map Prod.fst
    rw [List.map_map, List.map_map] at ids
    exact indexed.ids.sublist ids
  numbers := by
    have numbers := framed.terms.map fun terms => terms.2.1
    rw [List.map_map, List.map_map] at numbers
    exact indexed.numbers.sublist numbers

/-- Whether a grant goes back does not depend on the rounds for the others. -/
theorem Framed.refundable (framed : Framed opportunity state next)
    (apart : other.fundingOpportunityNumber ≠ opportunity.fundingOpportunityNumber) :
    Refundable next other ↔ Refundable state other := by
  have same := framed.applications _ apart
  have reviews : next.positiveReviews = state.positiveReviews := by
    funext application
    rw [State.positiveReviews, State.positiveReviews, framed.researches]
  rw [Refundable, Refundable, State.TooFew, State.TooFew, State.eligible, State.eligible, same, reviews]

theorem numbers_apart (indexed : Indexed state) (listed : opportunity ∈ state.opportunities)
    (member : other ∈ state.opportunities) (apart : other.id ≠ opportunity.id) :
    other.fundingOpportunityNumber ≠ opportunity.fundingOpportunityNumber := by
  intro same
  exact apart (congrArg FundingOpportunity.id (List.inj_on_of_nodup_map indexed.numbers member listed same))

/-- The rounds for some grants. -/
def rounds (hash : Name → Name) (state : State) (opportunities : List FundingOpportunity) :
    Outcome String State :=
  Outcome.each (fun _ state opportunity => state.processFundingOpportunity hash opportunity) state
    opportunities

theorem rounds_cons {opportunities : List FundingOpportunity} :
    rounds hash state (opportunity :: opportunities) =
      (state.processFundingOpportunity hash opportunity).andThen fun next =>
        rounds hash next opportunities := rfl

/-- The rounds change no grant but their own. -/
theorem rounds_others {opportunities : List FundingOpportunity} (sound : Sound state)
    (ran : rounds hash state opportunities = .returned next)
    (apart : other.id ∉ opportunities.map FundingOpportunity.id) :
    other ∈ next.opportunities ↔ other ∈ state.opportunities := by
  induction opportunities generalizing state with
  | nil =>
    cases ran
    exact Iff.rfl
  | cons opportunity rest hypothesis =>
    rw [rounds_cons, Outcome.andThen_returned_iff] at ran
    obtain ⟨middle, first, later⟩ := ran
    rw [List.map_cons, List.mem_cons, not_or] at apart
    have framed := framed_round sound first
    exact (hypothesis (framed.sound sound) later apart.2).trans (framed.others other apart.1)

theorem rounds_logged {opportunities : List FundingOpportunity} (sound : Sound state)
    (ran : rounds hash state opportunities = .returned next) : Logged state next := by
  induction opportunities generalizing state with
  | nil =>
    cases ran
    exact Logged.of_same rfl rfl rfl
  | cons opportunity rest hypothesis =>
    rw [rounds_cons, Outcome.andThen_returned_iff] at ran
    obtain ⟨middle, first, later⟩ := ran
    have framed := framed_round sound first
    exact framed.toLogged.trans (hypothesis (framed.sound sound) later)

/-- Rounds that return have refunded their grants, or have left some of a supply. -/
theorem rounds_refund {opportunities : List FundingOpportunity} (sound : Sound state)
    (indexed : Indexed state) (listed : ∀ other ∈ opportunities, other ∈ state.opportunities)
    (distinct : (opportunities.map FundingOpportunity.id).Nodup)
    (ran : rounds hash state opportunities = .returned next) :
    ∀ other ∈ opportunities, Refundable state other ∨
      ∃ after ∈ next.opportunities, after.id = other.id ∧ 0 < after.currentSupply.amount := by
  induction opportunities generalizing state with
  | nil => exact fun _ member => absurd member List.not_mem_nil
  | cons opportunity rest hypothesis =>
    rw [rounds_cons, Outcome.andThen_returned_iff] at ran
    obtain ⟨middle, first, later⟩ := ran
    rw [List.map_cons, List.nodup_cons] at distinct
    have framed := framed_round sound first
    have own := listed opportunity List.mem_cons_self
    have apart : ∀ other ∈ rest, other.id ≠ opportunity.id := by
      rintro other member same
      exact distinct.1 (same ▸ List.mem_map_of_mem member)
    intro other member
    rcases List.mem_cons.mp member with rfl | behind
    · refine (round_refunds sound first).imp_right ?_
      rintro ⟨after, there, same, positive⟩
      refine ⟨after, (rounds_others (framed.sound sound) later ?_).mpr there, same, positive⟩
      exact same ▸ distinct.1
    · have old := listed other member
      rw [← framed.refundable (numbers_apart indexed own old (apart other behind))]
      refine hypothesis (framed.sound sound) (framed.indexed indexed) ?_ distinct.2 later other behind
      intro other behind
      exact (framed.others other (apart other behind)).mpr (listed other (List.mem_cons_of_mem _ behind))

/-- The payment of a refund. -/
def FundingOpportunity.refund (opportunity : FundingOpportunity) : Payment :=
  ⟨opportunity.id, opportunity.grantor, opportunity.amount⟩

/-- What the refunds of some grants leave. -/
structure AllRefunded (closed : List FundingOpportunity) (state next : State) : Prop where
  opportunities : ∀ other, other ∈ next.opportunities ↔
    other ∈ state.opportunities ∧ other.id ∉ closed.map FundingOpportunity.id
  paid : next.paid = state.paid ++ closed.map FundingOpportunity.refund
  processed : ∀ id, id ∈ next.processed ↔
    id ∈ closed.map FundingOpportunity.id ∨ id ∈ state.processed
  nextOpportunity : next.nextOpportunity = state.nextOpportunity

theorem rounds_refunded {opportunities : List FundingOpportunity} (sound : Sound state)
    (indexed : Indexed state) (listed : ∀ other ∈ opportunities, other ∈ state.opportunities)
    (distinct : (opportunities.map FundingOpportunity.id).Nodup)
    (positive : ∀ other ∈ opportunities, 0 < other.amount.amount)
    (refundable : ∀ other ∈ opportunities, Refundable state other) :
    ∃ next, rounds hash state opportunities = .returned next ∧ Indexed next ∧
      AllRefunded opportunities state next := by
  induction opportunities generalizing state with
  | nil => exact ⟨state, rfl, indexed, by simp, by simp, by simp, rfl⟩
  | cons opportunity rest hypothesis =>
    rw [List.map_cons, List.nodup_cons] at distinct
    rw [List.forall_mem_cons] at positive refundable
    have own := listed opportunity List.mem_cons_self
    have apart : ∀ other ∈ rest, other.id ≠ opportunity.id := by
      rintro other member same
      exact distinct.1 (same ▸ List.mem_map_of_mem member)
    obtain ⟨middle, first, refunded⟩ : ∃ middle,
        state.processFundingOpportunity hash opportunity = .returned middle ∧
          Refunded opportunity state middle := round_refunded sound own positive.1 refundable.1
    have framed := framed_round sound first
    have later : ∀ other ∈ rest, other ∈ middle.opportunities := fun other behind =>
      (framed.others other (apart other behind)).mpr (listed other (List.mem_cons_of_mem _ behind))
    have still : ∀ other ∈ rest, Refundable middle other := fun other behind =>
      (framed.refundable (numbers_apart indexed own (listed other (List.mem_cons_of_mem _ behind))
        (apart other behind))).mpr (refundable.2 other behind)
    obtain ⟨next, ran, keys, all⟩ := hypothesis (framed.sound sound) (framed.indexed indexed) later
      distinct.2 positive.2 still
    refine ⟨next, by rw [rounds_cons, first]; exact ran, keys, ?_, ?_, ?_, ?_⟩
    · intro other
      rw [all.opportunities, refunded.opportunities, mem_eraseP_iff indexed.ids, List.map_cons,
        List.mem_cons, not_or, and_assoc]
    · rw [all.paid, refunded.paid, List.map_cons, List.append_assoc]
      rfl
    · intro id
      rw [all.processed, refunded.processed, List.map_cons, List.mem_cons, List.mem_cons, or_assoc,
        or_left_comm]
    · rw [all.nextOpportunity, refunded.nextOpportunity]

end DeipChain.EciGrants
