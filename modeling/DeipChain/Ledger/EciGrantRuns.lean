import DeipChain.Ledger.EciGrantRounds
import DeipChain.Lib.Selection

/-!
# Runs of the distribution of grants

A call accords with what grants are for if it throws nothing, pays nothing for a grant that is open or
was processed before, and gives a grant that it comes to for the first time back to the grantor or to
the best researches, so that nothing of it is left. The calls that do are those at which every closed
grant goes back.
-/
namespace DeipChain.EciGrants

open Ledger Result Table

variable {hash : Name → Name} {state next : State} {opportunity : FundingOpportunity}

/-! ## Calls -/

/-- The payments of a grant so far. -/
def State.paymentsFor (id : Nat) (state : State) : List Payment :=
  state.paid.filter fun payment => payment.opportunity == id

/-- The assessment of the research of an application in the main discipline of a grant. -/
def State.eci (opportunity : FundingOpportunity) (state : State) (application : GrantApplication) : Int :=
  ((state.relations.find? fun relation => relation.researchId == application.researchId &&
    some relation.disciplineId == opportunity.targetDisciplines.min?).map
      ResearchDisciplineRelation.researchEci).getD 0

/-- The account of the group of the research of an application. -/
def State.accountOf (state : State) (application : GrantApplication) : Option Name := do
  let research ← state.researches.find? fun research => research.id == application.researchId
  let group ← state.groups.find? fun group => group.id == research.researchGroupId
  return group.account

/-- What a payment brings to an account. -/
def Payment.to (account : Name) (symbol : AssetSymbol) (payment : Payment) : Int :=
  if payment.account = account then payment.amount.under symbol else 0

/-- The grant goes back to the grantor, for want of applications or of assessments. -/
structure Refunds (opportunity : FundingOpportunity) (state next : State) : Prop where
  reason : state.TooFew opportunity ∨
    ∀ application ∈ state.eligible opportunity, state.eci opportunity application ≤ 0
  paid : next.paymentsFor opportunity.id = state.paymentsFor opportunity.id ++ [opportunity.refund]

/-- The grant goes to the best of the eligible researches, in shares that follow their assessments. The
rest goes to the first of them. -/
structure Awards (opportunity : FundingOpportunity) (state next : State)
    (winners : List GrantApplication) (top : GrantApplication) (made : List Payment) : Prop where
  enough : ¬state.TooFew opportunity
  leading : Selection.Leading
    (fun one other => state.eci opportunity other ≤ state.eci opportunity one)
    opportunity.maxNumberOfResearchToGrant (state.eligible opportunity) winners
  best : top ∈ winners ∧ ∀ winner ∈ winners, state.eci opportunity winner ≤ state.eci opportunity top
  positive : 0 < state.eci opportunity top
  paid : next.paymentsFor opportunity.id = state.paymentsFor opportunity.id ++ made
  whole : ∀ symbol, total (fun payment => payment.amount.under symbol) made =
    opportunity.amount.under symbol
  shares : ∀ account symbol, total (Payment.to account symbol) made =
    total (fun winner =>
      let share := opportunity.amount.amount * state.eci opportunity winner /
        total (state.eci opportunity) winners
      let rest := if winner = top then opportunity.amount.amount -
        total (fun winner => opportunity.amount.amount * state.eci opportunity winner /
          total (state.eci opportunity) winners) winners else 0
      if state.accountOf winner = some account ∧ symbol = opportunity.amount.symbol then share + rest
      else 0) winners

/-- A call accords with what grants are for. -/
structure Accords (state next : State) : Prop extends Logged state next where
  early : ∀ opportunity ∈ state.opportunities, state.headBlockTime < opportunity.closeDate →
    next.paymentsFor opportunity.id = state.paymentsFor opportunity.id
  first : ∀ opportunity ∈ state.opportunities, opportunity.closeDate ≤ state.headBlockTime →
    opportunity.id ∉ state.processed →
      (Refunds opportunity state next ∨ ∃ winners top made, Awards opportunity state next winners top made) ∧
      ∀ after ∈ next.opportunities, after.id = opportunity.id → after.currentSupply.amount = 0
  later : ∀ id ∈ state.processed, next.paymentsFor id = state.paymentsFor id

/-- A call returns and accords with what grants are for. -/
def Meets (hash : Name → Name) (state : State) : Prop :=
  ∃ next, state.processFundingOpportunities hash = .returned next ∧ Accords state next

/-- Every closed grant goes back. -/
def AllRefundable (state : State) : Prop :=
  ∀ opportunity ∈ state.opportunities, opportunity.closeDate ≤ state.headBlockTime →
    Refundable state opportunity

/-- Grants that were not come to yet, with all of their supply. -/
structure Untouched (state : State) : Prop extends Indexed state where
  bounded : ∀ opportunity ∈ state.opportunities, opportunity.id < state.nextOpportunity
  past : ∀ id ∈ state.processed, id < state.nextOpportunity ∧
    ∀ opportunity ∈ state.opportunities, opportunity.id ≠ id
  positive : ∀ opportunity ∈ state.opportunities, 0 < opportunity.amount.amount

theorem mem_due : opportunity ∈ state.due ↔
    opportunity ∈ state.opportunities ∧ opportunity.closeDate ≤ state.headBlockTime := by
  have sorted := List.pairwise_insertionSort
    (fun one other : FundingOpportunity => one.closeDate ≤ other.closeDate) state.opportunities
  rw [State.due, Selection.mem_takeWhile_iff, List.mem_insertionSort, decide_eq_true_eq]
  refine sorted.imp fun {one other} before closed => decide_eq_true ?_
  exact before.trans (of_decide_eq_true closed)

theorem due_distinct (indexed : Indexed state) : (state.due.map FundingOpportunity.id).Nodup := by
  have sorted := (List.perm_insertionSort
    (fun one other : FundingOpportunity => one.closeDate ≤ other.closeDate) state.opportunities).map
      FundingOpportunity.id
  exact (sorted.nodup_iff.mpr indexed.ids).sublist ((List.takeWhile_sublist _).map _)

/-- A call at which every closed grant goes back. -/
theorem call_refunds (sound : Sound state) (untouched : Untouched state) (all : AllRefundable state) :
    ∃ next, state.processFundingOpportunities hash = .returned next ∧ Untouched next ∧
      Accords state next := by
  have listed : ∀ other ∈ state.due, other ∈ state.opportunities := fun other member =>
    (mem_due.mp member).1
  have distinct := due_distinct untouched.toIndexed
  obtain ⟨next, ran, indexed, refunded⟩ : ∃ next, rounds hash state state.due = .returned next ∧
      Indexed next ∧ AllRefunded state.due state next :=
    rounds_refunded sound untouched.toIndexed listed distinct
      (fun other member => untouched.positive other (listed other member))
      (fun other member => all other (listed other member) (mem_due.mp member).2)
  have payments (id : Nat) : next.paymentsFor id = state.paymentsFor id ++
      (state.due.filter fun other => other.id == id).map FundingOpportunity.refund := by
    rw [State.paymentsFor, refunded.paid, List.filter_append, List.filter_map]
    rfl
  have none (id : Nat) (outside : ∀ other ∈ state.due, other.id ≠ id) :
      next.paymentsFor id = state.paymentsFor id := by
    rw [payments, List.filter_eq_nil_iff.mpr, List.map_nil, List.append_nil]
    exact fun other member same => outside other member (by simpa using same)
  refine ⟨next, ran, ?_, ?_⟩
  · refine ⟨indexed, ?_, ?_, ?_⟩
    · intro other member
      rw [refunded.nextOpportunity]
      exact untouched.bounded other ((refunded.opportunities other).mp member).1
    · intro id member
      rw [refunded.nextOpportunity]
      rcases (refunded.processed id).mp member with closed | old
      · obtain ⟨other, there, rfl⟩ := List.mem_map.mp closed
        refine ⟨untouched.bounded other (listed other there), ?_⟩
        rintro remaining left same
        exact ((refunded.opportunities remaining).mp left).2 (same ▸ closed)
      · obtain ⟨below, gone⟩ := untouched.past id old
        exact ⟨below, fun remaining left => gone remaining ((refunded.opportunities remaining).mp left).1⟩
    · exact fun other member => untouched.positive other ((refunded.opportunities other).mp member).1
  · refine ⟨rounds_logged sound ran, ?_, ?_, ?_⟩
    · intro opportunity member waits
      refine none opportunity.id fun other closed same => ?_
      obtain ⟨there, reached⟩ := mem_due.mp closed
      obtain rfl := List.inj_on_of_nodup_map untouched.ids there member same
      exact absurd reached (Nat.not_le.mpr waits)
    · intro opportunity member reached _
      have closed := mem_due.mpr ⟨member, reached⟩
      refine ⟨.inl ⟨?_, ?_⟩, ?_⟩
      · refine (all opportunity member reached).imp_right fun empty application eligible => ?_
        rw [empty] at eligible
        exact absurd eligible List.not_mem_nil
      · rw [payments, filter_of_nodup distinct closed]
        rfl
      · intro after left same
        exact absurd (List.mem_map.mpr ⟨opportunity, closed, same.symm⟩)
          ((refunded.opportunities after).mp left).2
    · intro id old
      exact none id fun other closed => (untouched.past id old).2 other (listed other closed)

/-- A call accords with what grants are for if and only if every closed grant goes back. -/
theorem meets_iff (sound : Sound state) (untouched : Untouched state) :
    Meets hash state ↔ AllRefundable state := by
  constructor
  · rintro ⟨next, ran, accords⟩ opportunity member reached
    have closed := mem_due.mpr ⟨member, reached⟩
    have fresh : opportunity.id ∉ state.processed := fun old =>
      (untouched.past _ old).2 opportunity member rfl
    rcases rounds_refund sound untouched.toIndexed (fun other there => (mem_due.mp there).1)
      (due_distinct untouched.toIndexed) ran opportunity closed with refundable | ⟨after, left, same, rest⟩
    · exact refundable
    · have used := (accords.first opportunity member reached fresh).2 after left same
      omega
  · intro all
    obtain ⟨next, ran, -, accords⟩ : ∃ next, state.processFundingOpportunities hash = .returned next ∧
        Untouched next ∧ Accords state next := call_refunds sound untouched all
    exact ⟨next, ran, accords⟩

/-! ## Runs -/

theorem createGrant_untouched {terms : Terms} (untouched : Untouched state)
    (ran : state.createGrant terms = .ok next) : Untouched next := by
  simp only [State.createGrant, bind_ok_iff, require_ok_iff, pure_ok_iff] at ran
  obtain ⟨balances, -, _, ⟨-, unnamed⟩, rfl⟩ := ran
  refine ⟨⟨nodup_append_fresh untouched.ids ?_, nodup_append_fresh untouched.numbers unnamed⟩, ?_, ?_, ?_⟩
  · exact fun other member same => absurd (untouched.bounded other member) (same ▸ Nat.lt_irrefl _)
  · refine forall_append_singleton (fun other member => ?_) (Nat.lt_succ_self _)
    exact Nat.lt_succ_of_lt (untouched.bounded other member)
  · intro id old
    obtain ⟨below, gone⟩ := untouched.past id old
    exact ⟨Nat.lt_succ_of_lt below, forall_append_singleton gone below.ne'⟩
  · exact forall_append_singleton untouched.positive terms.amountPositive

theorem begin_untouched (untouched : Untouched state) (block : Block) : Untouched (state.begin block) := by
  rw [State.begin]
  refine List.foldlRecOn block.grants _ ?_ ?_
  · exact ⟨⟨untouched.ids, untouched.numbers⟩, untouched.bounded, untouched.past, untouched.positive⟩
  · intro reached still terms _
    cases created : reached.createGrant terms with
    | ok next => exact createGrant_untouched still created
    | error => exact still

/-- A property of the states in which the grants are processed, in a run of blocks. -/
def Along (hash : Name → Name) (property : State → Prop) : State → List Block → Prop
  | _, [] => True
  | state, block :: behind => property (state.begin block) ∧
      ((state.begin block).processFundingOpportunities hash).Ensures fun next =>
        Along hash property next behind

/-- The calls of a run accord with what grants are for if and only if every grant that they come to
goes back to its grantor. -/
theorem meets_along_iff (hash : Name → Name) {start : State} (untouched : Untouched start)
    {blocks : List Block} (sound : Along hash Sound start blocks) :
    Along hash (Meets hash) start blocks ↔ Along hash AllRefundable start blocks := by
  induction blocks generalizing start with
  | nil => exact Iff.rfl
  | cons block behind hypothesis =>
    obtain ⟨here, later⟩ := sound
    have begun := begin_untouched untouched block
    have goes : AllRefundable (start.begin block) → ∃ next,
        (start.begin block).processFundingOpportunities hash = .returned next ∧ Untouched next := by
      intro all
      obtain ⟨next, ran, still, -⟩ := call_refunds here begun all
      exact ⟨next, ran, still⟩
    constructor
    · rintro ⟨meets, others⟩
      have all := (meets_iff here begun).mp meets
      obtain ⟨next, ran, still⟩ := goes all
      rw [ran] at others later
      exact ⟨all, by rw [ran]; exact (hypothesis still later).mp others⟩
    · rintro ⟨all, others⟩
      obtain ⟨next, ran, still⟩ := goes all
      rw [ran] at others later
      exact ⟨(meets_iff here begun).mpr all, by rw [ran]; exact (hypothesis still later).mpr others⟩

instance : DecidablePred Sound := fun state =>
  decidable_of_iff ((state.applications.map GrantApplication.id).Nodup ∧
      (∀ application ∈ state.applications, ∃ research ∈ state.researches,
        research.id = application.researchId) ∧
      ∀ opportunity ∈ state.opportunities,
        (state.assets.any fun asset => asset.symbol == opportunity.amount.symbol) = true)
    ⟨fun ⟨applications, researches, assets⟩ => ⟨applications, researches, assets⟩,
      fun sound => ⟨sound.applications, sound.researches, sound.assets⟩⟩

instance (state : State) (opportunity : FundingOpportunity) : Decidable (Refundable state opportunity) :=
  inferInstanceAs (Decidable (_ < _ ∨ _ = _))

instance : DecidablePred AllRefundable := fun state =>
  inferInstanceAs (Decidable (∀ opportunity ∈ state.opportunities, _ → _))

instance decidableAlong (hash : Name → Name) (property : State → Prop) [DecidablePred property] :
    (state : State) → (blocks : List Block) → Decidable (Along hash property state blocks)
  | _, [] => .isTrue trivial
  | _, _ :: behind =>
    have : DecidablePred fun next => Along hash property next behind :=
      fun next => decidableAlong hash property next behind
    inferInstanceAs (Decidable (_ ∧ _))

namespace Sample

/-- A research with some positive reviews applies for the grant. -/
def world (positiveReviews : Nat) : World where
  assets := [⟨1, "COIN", "grantor", .basic, none, none, 1000, 100, false⟩]
  balances := [⟨"grantor", 1, 100, 0⟩]
  applications := [⟨0, "grant", 1⟩]
  researches := [⟨1, "research", "laboratory", 1, positiveReviews⟩]
  relations := [⟨1, 5, 10⟩]
  groups := [⟨1, "laboratory", "founder", ⟨0, 1⟩⟩]
  awards := []
  recipients := []
  otherNumbers := []

/-- A grant of a hundred coins for one research with a positive review. -/
def terms : Terms where
  grantor := "grantor"
  amount := ⟨100, 1⟩
  targetDisciplines := [5]
  fundingOpportunityNumber := "grant"
  minNumberOfPositiveReviews := 1
  minNumberOfApplications := 1
  maxNumberOfResearchToGrant := 1
  closeDate := 9
  amountPositive := by decide
  maxPositive := by decide
  maxAtMost := by decide

def start : State where
  toWorld := world 0
  opportunities := []
  nextOpportunity := 0
  headBlockTime := 3
  headBlockNumber := 1
  paid := []
  processed := []

/-- The grant is created in the first block, and closed in the second one. -/
def opening : Block := ⟨6, 2, world 0, [terms]⟩

def closing (positiveReviews : Nat) : Block := ⟨12, 3, world positiveReviews, []⟩

theorem start_untouched : Untouched start where
  ids := List.nodup_nil
  numbers := List.nodup_nil
  bounded := by simp [start]
  past := by simp [start]
  positive := by simp [start]

/-- The one eligible research would get all of the grant, and the supply would be zero. -/
theorem whole_award_throws :
    Along id Sound start [opening, closing 1] ∧ ¬Along id (Meets id) start [opening, closing 1] := by
  refine ⟨by decide +kernel, ?_⟩
  rintro ⟨-, later⟩
  obtain ⟨next, ran, throws⟩ : ∃ next, (start.begin opening).processFundingOpportunities id =
      .returned next ∧ ((next.begin (closing 1)).processFundingOpportunities id).returnsWith
        (fun _ => true) = false := by
    obtain ⟨next, ran, throws⟩ := Outcome.exists_returned (show
      ((start.begin opening).processFundingOpportunities id).returnsWith (fun next =>
        !((next.begin (closing 1)).processFundingOpportunities id).returnsWith (fun _ => true)) = true
      by decide +kernel)
    exact ⟨next, ran, by simpa using throws⟩
  rw [ran] at later
  obtain ⟨⟨final, ended, -⟩, -⟩ := later
  rw [ended] at throws
  cases throws

theorem refund_meets : Along id Sound start [opening, closing 0] ∧ Along id (Meets id) start [opening, closing 0] := by
  have sound : Along id Sound start [opening, closing 0] := by decide +kernel
  exact ⟨sound, (meets_along_iff id start_untouched sound).mpr (by decide +kernel)⟩

end Sample

end DeipChain.EciGrants
