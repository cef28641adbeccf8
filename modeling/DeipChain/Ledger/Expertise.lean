import DeipChain.Ledger.AwardBooks

/-!
# Expert tokens and the emission of a block

An account has expert tokens in disciplines, and the account object and the global
properties count them. In each block the authors, reviewers and supporters of the
contributions that changed gain or lose expert tokens. A count that would fall below
zero is set to zero.

A block also raises the supply of core tokens. The witness of the block is paid its
part. The part for contributions is added to the supply and paid to nobody.
-/
namespace DeipChain.Ledger

open DeipChain.Result DeipChain.Table

/-- `DEIP_MAX_WITNESSES`. -/
def maxWitnesses : Int := 21

/-- `DEIP_CURATOR_INFLUENCE_BONUS`. -/
def curatorInfluenceBonus : Int := 10

/-- `DEIP_BLOCKS_PER_YEAR`. -/
def blocksPerYear : Int := 365 * 24 * 60 * 60 / 3

/-- `DEIP_CONTRIBUTION_REWARD_PERCENT`. -/
def contributionRewardPercent : Int := 9700

/-! ## Expert tokens -/

/-- `adjust_expertise_tokens_throughput`. -/
def adjustExpertiseTokensThroughput (state : State) (name : Name) (delta : Int) : State :=
  { state with
    accounts := modifyAccount state.accounts name fun account =>
      { account with expertiseTokensBalance := max (account.expertiseTokensBalance + delta) 0 }
    props := { state.props with
      totalExpertTokensAmount := max (state.props.totalExpertTokensAmount + delta) 0 } }

/-- The key of `by_account_and_discipline`. -/
def ExpertToken.belongs (name : Name) (discipline : Nat) (token : ExpertToken) : Bool :=
  token.accountName == name && token.disciplineId == discipline

def State.getDisciplineById (state : State) (id : Nat) : Except String Discipline :=
  expect (state.disciplines.find? fun discipline => discipline.id == id) unknownKey

/-- Creates the token of one discipline. -/
def addExpertToken (state : State) (name : Name) (discipline : Nat) (amount : Int) :
    Except String State := do
  require (state.expertTokens.any (ExpertToken.belongs name discipline) = false) uniquenessViolated
  return adjustExpertiseTokensThroughput
    { state with expertTokens := state.expertTokens ++ [⟨name, discipline, amount⟩] } name amount

/-- `create_expert_token`: the tokens of a discipline and of those above it that the account
    has none of. Each level creates the token of another discipline, so there are no more
    levels than disciplines. -/
def createExpertTokens (name : Name) (amount : Int) : Nat → State → Nat → Except String State
  | 0, _, _ => throw unknownKey
  | levels + 1, state, discipline => do
    let _ ← state.getAccount name
    require (discipline ≠ 0) "Expertise token can not be created for the common discipline"
    let row ← state.getDisciplineById discipline
    let created ← addExpertToken state name discipline amount
    if row.parentId ≠ 0 ∧ created.expertTokens.any (ExpertToken.belongs name row.parentId) = false then
      createExpertTokens name amount levels created row.parentId
    else return created

def createExpertToken (state : State) (name : Name) (discipline : Nat) (amount : Int) :
    Except String State :=
  createExpertTokens name amount state.disciplines.length state discipline

def adjustExpertToken (state : State) (name : Name) (discipline : Nat) (delta : Int) :
    Except String State := do
  let account ← state.getAccount name
  if state.expertTokens.any (ExpertToken.belongs name discipline) then
    return adjustExpertiseTokensThroughput
      { state with
        expertTokens := modifyFirst (ExpertToken.belongs account.name discipline)
          (fun token => { token with amount := token.amount + delta }) state.expertTokens }
      account.name delta
  else createExpertToken state name discipline delta

/-! ## Rewards for contributions -/

/-- The reviews of a contribution in its discipline, with the expertise used, in the order
    of a multimap that puts the larger expertise first. -/
def reviewers (registry : Registry) (contribution : ExpertiseContribution) (positive : Bool) :
    List (Int × Review) :=
  ((registry.reviews.filter fun review =>
      review.researchContentId == contribution.researchContentId && review.isPositive == positive).filterMap
    fun review => (review.expertiseTokensAmountByDiscipline.lookup contribution.disciplineId).map
      fun expertise => (expertise, review)).insertionSort
    fun first second => second.1 ≤ first.1

/-- The votes for those reviews in the discipline. -/
def supporters (registry : Registry) (contribution : ExpertiseContribution) (positive : Bool) :
    List ReviewVote :=
  (registry.reviews.filter fun review =>
      review.researchContentId == contribution.researchContentId && review.isPositive == positive &&
        (review.expertiseTokensAmountByDiscipline.lookup contribution.disciplineId).isSome).flatMap
    fun review => registry.reviewVotes.filter fun vote =>
      vote.reviewId == review.id && vote.disciplineId == contribution.disciplineId

/-- The shares of the reviewers, by the expertise that they used. -/
def reviewerAdjustments (reward sign : Int) (reviewers : List (Int × Review)) :
    Except String (List (Name × Int)) :=
  reviewers.mapM fun reviewer => do
    let share ← weightedShare reward reviewer.1 ((reviewers.map Prod.fst).sum)
    return (reviewer.2.author, sign * share)

def authorAdjustments (reward sign : Int) (authors : List Name) :
    Except String (List (Name × Int)) :=
  authors.mapM fun author => do
    let share ← weightedShare reward (fullPercent / authors.length) fullPercent
    return (author, sign * share)

/-- A supporter of a review gets nothing for the vote itself, and the author of a review
    nothing for having supported another one. -/
def supporterAdjustment (registry : Registry) (diff : EciDiff) (sign : Int) (vote : ReviewVote) :
    Except String (List (Name × Int)) :=
  match diff.contributionKind with
  | .reviewSupport => return if vote.id = diff.contributionId then [(vote.voter, 0)] else []
  | .review => do
    let review ← expect (registry.reviews.find? fun review => review.id == diff.contributionId)
      unknownKey
    return if review.author = vote.voter then [] else [(vote.voter, sign * curatorInfluenceBonus)]
  | .publication | .unknown => return [(vote.voter, sign * curatorInfluenceBonus)]

def supporterAdjustments (registry : Registry) (diff : EciDiff) (sign : Int)
    (votes : List ReviewVote) : Except String (List (Name × Int)) := do
  let adjustments ← votes.mapM (supporterAdjustment registry diff sign)
  return adjustments.flatten

/-- What a change of a contribution gives to or takes from accounts. Upvoters and authors
    share its sign, downvoters have the opposite one. -/
def diffAdjustments (registry : Registry) (contribution : ExpertiseContribution)
    (authors : List Name) (diff : EciDiff) : Except String (List (Name × Int)) :=
  if diff.delta ≠ 0 then do
    let sign : Int := if 0 < diff.delta then 1 else -1
    let reviewersReward := percentShare diff.delta.natAbs 3000
    let researchersReward := percentShare diff.delta.natAbs 7000
    let upvoters ← reviewerAdjustments reviewersReward sign (reviewers registry contribution true)
    let downvoters ← reviewerAdjustments reviewersReward (-sign)
      (reviewers registry contribution false)
    let researchers ← authorAdjustments researchersReward sign authors
    let upvoterSupporters ← supporterAdjustments registry diff sign
      (supporters registry contribution true)
    let downvoterSupporters ← supporterAdjustments registry diff (-sign)
      (supporters registry contribution false)
    return upvoters ++ downvoters ++ researchers ++ upvoterSupporters ++ downvoterSupporters
  else if diff.contributionKind = .publication then return authors.map fun author => (author, 0)
  else return []

/-- The adjustments for one contribution, with its discipline. -/
def contributionAdjustments (registry : Registry) (contribution : ExpertiseContribution) :
    Except String (List (Name × Nat × Int)) := do
  let content ← expect (registry.contents.find? fun content =>
    content.id == contribution.researchContentId) unknownKey
  let adjustments ← contribution.eciCurrentBlockDiffs.mapM
    (diffAdjustments registry contribution content.authors)
  return adjustments.flatten.map fun adjustment =>
    (adjustment.1, contribution.disciplineId, adjustment.2)

/-- The adjustments of a block, contribution by contribution. -/
def rewardAdjustments (registry : Registry) : Except String (List (Name × Nat × Int)) := do
  let altered := registry.expertiseContributions.filter fun contribution =>
    !contribution.eciCurrentBlockDiffs.isEmpty
  let adjustments ← altered.mapM (contributionAdjustments registry)
  return adjustments.flatten

def applyAdjustment (state : State) (adjustment : Name × Nat × Int) : Except String State :=
  adjustExpertToken state adjustment.1 adjustment.2.1 adjustment.2.2

def clearDiffs (registry : Registry) : Registry :=
  { registry with
    expertiseContributions := registry.expertiseContributions.map fun contribution =>
      { contribution with eciCurrentBlockDiffs := [] } }

/-- `distribute_reward`. It returns the reward that it is given, of which nothing is paid. -/
def distributeReward (state : State) : Except String State := do
  let adjustments ← rewardAdjustments state.registry
  let adjusted ← adjustments.foldlM applyAdjustment state
  return { adjusted with registry := clearDiffs adjusted.registry }

/-! ## Emission -/

/-- The inflation rate narrows from 9.78% to 0.95%. -/
def inflationRate (headBlockNumber : Nat) : Int :=
  max (978 - (headBlockNumber / 250000 : Nat)) 95

def toEmit (props : GlobalProperties) : Int :=
  (props.currentSupply.amount * inflationRate props.headBlockNumber).tdiv
    (fullPercent * blocksPerYear)

/-- The part of the emission for contributions. -/
def contributionReward (props : GlobalProperties) : Int :=
  percentShare (toEmit props) contributionRewardPercent

/-- The pay of the witness, by the kind of its slot. -/
def witnessReward (schedule : WitnessSchedule) (kind : ScheduleKind) (reward : Int) : Int :=
  let weighted := match kind with
    | .timeshare => reward * maxWitnesses * schedule.timeshareWeight
    | .top20 => reward * maxWitnesses * schedule.top20Weight
    | .none => reward * maxWitnesses
  weighted.tdiv schedule.witnessPayNormalizationFactor

/-- `process_funds`. -/
def processFunds (state : State) : Except String State := do
  let witness ← expect (state.witnesses.find? fun witness =>
    witness.owner == state.props.currentWitness) unknownKey
  let pay := witnessReward state.schedule witness.schedule
    (toEmit state.props - contributionReward state.props)
  let rewarded ← distributeReward state
  let currentSupply ← rewarded.props.currentSupply.add
    ⟨contributionReward state.props + pay, deipSymbol⟩
  increaseCommonTokens { rewarded with props := { rewarded.props with currentSupply } }
    witness.owner pay

/-! ## Expertise in the books -/

variable {kept : Aspect → Prop} {state next : State}

/-- A change of expertise that no count has to cut off, and that leaves every witness no
    more votes than there are expert tokens. -/
def Bearable (state : State) (name : Name) (delta : Int) : Prop :=
  (∀ account ∈ state.accounts, account.name = name → 0 ≤ account.expertiseTokensBalance + delta) ∧
    ∀ witness ∈ state.witnesses, witness.votes ≤ state.props.totalExpertTokensAmount + delta

/-- A rewriting of the expert tokens that adds `delta` to those of one account. -/
structure Rerated (state : State) (name : Name) (delta : Int) (expertTokens : List ExpertToken) :
    Prop where
  tokens : ∀ token ∈ expertTokens, 0 ≤ token.amount
  names : ∀ token ∈ expertTokens, token.accountName = name ∨
    ∃ old ∈ state.expertTokens, old.accountName = token.accountName
  sums : ∀ other, total (ExpertToken.heldBy other) expertTokens =
    total (ExpertToken.heldBy other) state.expertTokens + if other = name then delta else 0

/-- What the tokens of an account add up to is not negative, nor is what they all add up to. -/
theorem Rerated.counted {name : Name} {delta : Int} {expertTokens : List ExpertToken}
    {account : Account} (named : Named state.accounts) (rated : Rated state)
    (found : state.accounts.find? (fun account => account.name == name) = some account)
    (rerated : Rerated state name delta expertTokens) :
    Rated (adjustExpertiseTokensThroughput { state with expertTokens } name delta) := by
  have member := List.mem_of_find?_eq_some found
  have own : account.name = name := by simpa using List.find?_some found
  have sum := rerated.sums name
  rw [if_pos rfl, ← own, ← rated.owned account member] at sum
  have positive : 0 ≤ account.expertiseTokensBalance + delta := by
    rw [← sum]
    refine total_nonneg fun token listed => ?_
    unfold ExpertToken.heldBy
    split
    · exact rerated.tokens token listed
    · exact le_refl _
  have counts : ∀ other ∈ (adjustExpertiseTokensThroughput { state with expertTokens } name
      delta).accounts, other.expertiseTokensBalance =
        total (ExpertToken.heldBy other.name) expertTokens := by
    intro other changed
    rcases (mem_modifyFirst_iff named found).mp changed with ⟨kept, apart⟩ | rfl
    · rw [rerated.sums, if_neg apart, add_zero]
      exact rated.owned other kept
    · dsimp only
      rw [max_eq_left positive, sum]
  have changed : total Account.expertiseTokensBalance
      (adjustExpertiseTokensThroughput { state with expertTokens } name delta).accounts =
      total Account.expertiseTokensBalance state.accounts + delta := by
    refine (total_modifyFirst _ found).trans ?_
    dsimp only
    rw [max_eq_left positive]
    omega
  refine ⟨rerated.tokens, fun token listed => ?_, counts, ?_⟩
  · have same : (adjustExpertiseTokensThroughput { state with expertTokens } name
        delta).accounts.map Account.name = state.accounts.map Account.name := by
      exact map_modifyFirst fun _ => rfl
    rw [State.Known, same]
    rcases rerated.names token listed with isOwn | ⟨old, before, equal⟩
    · rw [isOwn, ← own]
      exact List.mem_map_of_mem member
    · exact equal ▸ rated.known old before
  · have all : 0 ≤ total Account.expertiseTokensBalance
        (adjustExpertiseTokensThroughput { state with expertTokens } name delta).accounts := by
      refine total_nonneg fun other listed => ?_
      rw [counts other listed]
      refine total_nonneg fun token _ => ?_
      unfold ExpertToken.heldBy
      split
      · exact rerated.tokens token ‹_›
      · exact le_refl _
    rw [changed] at all ⊢
    simp only [adjustExpertiseTokensThroughput, rated.counted]
    exact max_eq_left all

/-- A change of the tokens of one account, which the account and the global properties
    count. -/
theorem adjustExpertiseTokensThroughput_posted {name : Name} {delta : Int} {account : Account}
    {expertTokens : List ExpertToken}
    (found : state.accounts.find? (fun account => account.name == name) = some account)
    (bearable : kept .counted → Counted state → Bearable state name delta)
    (rerated : kept .rated → Rated state → Rerated state name delta expertTokens) :
    Posted kept (fun _ => 0) state
      (adjustExpertiseTokensThroughput { state with expertTokens } name delta) := by
  have names : (adjustExpertiseTokensThroughput { state with expertTokens } name
      delta).accounts.map Account.name = state.accounts.map Account.name := by
    exact map_modifyFirst fun _ => rfl
  have common : total Account.commonTokensBalance
      (adjustExpertiseTokensThroughput { state with expertTokens } name delta).accounts =
      total Account.commonTokensBalance state.accounts := by
    exact total_modifyFirst_same fun _ => rfl
  constructor
  · intro sound
    exact { sound with
      named := (congrArg List.Nodup names).mpr sound.named
      funded := sound.funded.trans common.symm }
  · exact fun _ _ member _ => member
  · exact fun _ _ => (add_zero _).symm
  · intro sound aspect keeps before
    cases aspect with
    | reserved => exact forall_modifyFirst before fun _ _ reserved => reserved
    | counted =>
      obtain ⟨covered, elected⟩ := bearable keeps before
      have own := covered account (List.mem_of_find?_eq_some found)
        (by simpa using List.find?_some found)
      have changed : total Account.expertiseTokensBalance
          (adjustExpertiseTokensThroughput { state with expertTokens } name delta).accounts =
          total Account.expertiseTokensBalance state.accounts + delta := by
        refine (total_modifyFirst _ found).trans ?_
        dsimp only
        rw [max_eq_left own]
        omega
      have experts : ∀ row ∈ (adjustExpertiseTokensThroughput { state with expertTokens } name
          delta).accounts, 0 ≤ row.expertiseTokensBalance :=
        forall_modifyFirst before.experts fun _ _ _ => le_max_right _ _
      have positive := total_nonneg experts
      have counted := before.counted
      refine ⟨experts, ?_, fun witness member => (elected witness member).trans (le_max_left _ _)⟩
      rw [changed] at positive ⊢
      simp only [adjustExpertiseTokensThroughput, counted]
      exact max_eq_left positive
    | rated => exact (rerated keeps before).counted sound.named before found
    | rooted =>
      have renamed := before.of_names names
      exact { renamed with balances := renamed.balances }
    | coreOnly => exact { before with vestings := before.vestings }
    | awarded _ _ => exact before

theorem addExpertToken_posted {name : Name} {discipline : Nat} {amount : Int} {account : Account}
    (got : state.getAccount name = .ok account)
    (bearable : kept .counted → Counted state → Bearable state name amount)
    (positive : kept .rated → 0 ≤ amount)
    (added : addExpertToken state name discipline amount = .ok next) :
    Posted kept (fun _ => 0) state next := by
  simp only [addExpertToken, bind_ok_iff, pure_ok_iff] at added
  obtain ⟨_, _, rfl⟩ := added
  refine adjustExpertiseTokensThroughput_posted (expect_ok_iff.mp got) bearable fun keeps rated => ?_
  refine ⟨forall_append_singleton rated.tokens (positive keeps), ?_, ?_⟩
  · exact forall_append_singleton (fun token member => .inr ⟨token, member, rfl⟩) (.inl rfl)
  · intro other
    simp only [total_append, total_cons, total_nil, ExpertToken.heldBy, eq_comm, add_zero]

/-- Every level of a creation is bearable. -/
def CreationBearable (name : Name) (amount : Int) : Nat → State → Nat → Prop
  | 0, _, _ => True
  | levels + 1, state, discipline => (Counted state → Bearable state name amount) ∧
    ∀ row created, state.getDisciplineById discipline = .ok row →
      addExpertToken state name discipline amount = .ok created →
      row.parentId ≠ 0 → created.expertTokens.any (ExpertToken.belongs name row.parentId) = false →
      CreationBearable name amount levels created row.parentId

/-- Expertise that is given and not taken is bearable. -/
theorem Bearable.of_nonneg {name : Name} {delta : Int} (positive : 0 ≤ delta)
    (counted : Counted state) : Bearable state name delta := by
  refine ⟨fun account member _ => Int.add_nonneg (counted.experts account member) positive, ?_⟩
  intro witness member
  have bound := counted.elected witness member
  omega

theorem CreationBearable.of_nonneg {name : Name} {amount : Int} (positive : 0 ≤ amount)
    (levels : Nat) (state : State) (discipline : Nat) :
    CreationBearable name amount levels state discipline := by
  induction levels generalizing state discipline with
  | zero => trivial
  | succ levels hypothesis =>
    exact ⟨Bearable.of_nonneg positive, fun row created _ _ _ _ => hypothesis created row.parentId⟩

theorem createExpertTokens_posted {name : Name} {amount : Int} {levels discipline : Nat}
    (bearable : kept .counted → CreationBearable name amount levels state discipline)
    (positive : kept .rated → 0 ≤ amount)
    (created : createExpertTokens name amount levels state discipline = .ok next) :
    Posted kept (fun _ => 0) state next := by
  induction levels generalizing state discipline with
  | zero => cases created
  | succ levels hypothesis =>
    simp only [createExpertTokens, bind_ok_iff] at created
    obtain ⟨account, got, _, _, row, listed, middle, added, created⟩ := created
    have first : Posted kept (fun _ => 0) state middle :=
      addExpertToken_posted got (fun keeps => (bearable keeps).1) positive added
    split at created
    · rename_i missing
      have rest := hypothesis (fun keeps => (bearable keeps).2 row middle listed added missing.1
        missing.2) created
      exact (first.trans rest).congr fun _ _ => rfl
    · rw [pure_ok_iff] at created
      exact created ▸ first

/-- The change of one token, and of the tokens that it creates, is bearable. -/
def AdjustmentBearable (state : State) (adjustment : Name × Nat × Int) : Prop :=
  if state.expertTokens.any (ExpertToken.belongs adjustment.1 adjustment.2.1) then
    Counted state → Bearable state adjustment.1 adjustment.2.2
  else CreationBearable adjustment.1 adjustment.2.2 state.disciplines.length state adjustment.2.1

/-- What an account has in a discipline bears the change of it. -/
def Borne (state : State) (adjustment : Name × Nat × Int) : Prop :=
  0 ≤ ((state.expertTokens.find? (ExpertToken.belongs adjustment.1 adjustment.2.1)).map
    ExpertToken.amount).getD 0 + adjustment.2.2

instance (state : State) (adjustment : Name × Nat × Int) : Decidable (Borne state adjustment) :=
  inferInstanceAs (Decidable (_ ≤ _))

theorem Borne.rerated {name : Name} {discipline : Nat} {delta : Int} {token : ExpertToken}
    (rated : Rated state)
    (found : state.expertTokens.find? (ExpertToken.belongs name discipline) = some token)
    (borne : 0 ≤ token.amount + delta) :
    Rerated state name delta (modifyFirst (ExpertToken.belongs name discipline)
      (fun token => { token with amount := token.amount + delta }) state.expertTokens) := by
  have own : token.accountName = name := by
    have matched := List.find?_some found
    simp only [ExpertToken.belongs, Bool.and_eq_true, beq_iff_eq] at matched
    exact matched.1
  refine ⟨?_, ?_, ?_⟩
  · refine forall_modifyFirst rated.tokens fun row hit _ => ?_
    rw [Option.some.inj (hit.symm.trans found)]
    exact borne
  · refine forall_modifyFirst (fun row member => .inr ⟨row, member, rfl⟩) fun row _ known => ?_
    exact known
  · intro other
    rw [total_modifyFirst _ found]
    simp only [ExpertToken.heldBy, own, eq_comm]
    split <;> omega

theorem applyAdjustment_posted {adjustment : Name × Nat × Int}
    (bearable : kept .counted → AdjustmentBearable state adjustment)
    (borne : kept .rated → Borne state adjustment)
    (applied : applyAdjustment state adjustment = .ok next) :
    Posted kept (fun _ => 0) state next := by
  obtain ⟨name, discipline, delta⟩ := adjustment
  simp only [applyAdjustment, adjustExpertToken, bind_ok_iff] at applied
  obtain ⟨account, got, applied⟩ := applied
  obtain ⟨rfl, _⟩ := State.known_of_get got
  split at applied
  · rename_i present
    rw [pure_ok_iff] at applied
    subst applied
    refine adjustExpertiseTokensThroughput_posted (expect_ok_iff.mp got) (fun keeps => ?_)
      fun keeps rated => ?_
    · have bears := bearable keeps
      rw [AdjustmentBearable, if_pos present] at bears
      exact bears
    · have bears := borne keeps
      cases found : state.expertTokens.find? (ExpertToken.belongs account.name discipline) with
      | none =>
        rw [List.any_eq_true] at present
        obtain ⟨token, member, matched⟩ := present
        exact absurd matched (List.find?_eq_none.mp found token member)
      | some token =>
        rw [Borne, found] at bears
        exact Borne.rerated rated found bears
  · rename_i absent
    refine createExpertTokens_posted (fun keeps => ?_) (fun keeps => ?_) applied
    · have bears := bearable keeps
      rw [AdjustmentBearable, if_neg absent] at bears
      exact bears
    · have bears := borne keeps
      have none : state.expertTokens.find? (ExpertToken.belongs account.name discipline) = none := by
        refine List.find?_eq_none.mpr fun token member matched => absent ?_
        exact List.any_eq_true.mpr ⟨token, member, matched⟩
      rw [Borne, none] at bears
      exact bears.trans_eq (zero_add _)

theorem applyAdjustments_posted {adjustments : List (Name × Nat × Int)}
    (bearable : kept .counted → Along applyAdjustment AdjustmentBearable state adjustments)
    (borne : kept .rated → Along applyAdjustment Borne state adjustments)
    (applied : adjustments.foldlM applyAdjustment state = .ok next) :
    Posted kept (fun _ => 0) state next := by
  induction adjustments generalizing state with
  | nil =>
    rw [List.foldlM_nil, pure_ok_iff] at applied
    exact applied ▸ Posted.refl kept state
  | cons adjustment rest hypothesis =>
    rw [List.foldlM_cons, bind_ok_iff] at applied
    obtain ⟨middle, first, others⟩ := applied
    have head : Posted kept (fun _ => 0) state middle :=
      applyAdjustment_posted (fun keeps => (bearable keeps).1) (fun keeps => (borne keeps).1) first
    have tail := hypothesis (fun keeps => (bearable keeps).2 middle first)
      (fun keeps => (borne keeps).2 middle first) others
    exact (head.trans tail).congr fun _ _ => rfl

/-- The rewards of a block fit the states that they come to. -/
def RewardsFit (fits : State → Name × Nat × Int → Prop) (state : State) : Prop :=
  ∀ adjustments, rewardAdjustments state.registry = .ok adjustments →
    Along applyAdjustment fits state adjustments

theorem distributeReward_posted (bearable : kept .counted → RewardsFit AdjustmentBearable state)
    (borne : kept .rated → RewardsFit Borne state)
    (distributed : distributeReward state = .ok next) : Posted kept (fun _ => 0) state next := by
  simp only [distributeReward, bind_ok_iff, pure_ok_iff] at distributed
  obtain ⟨adjustments, computed, adjusted, applied, rfl⟩ := distributed
  have rewarded := applyAdjustments_posted (fun keeps => bearable keeps adjustments computed)
    (fun keeps => borne keeps adjustments computed) applied
  have cleared : Posted kept (fun _ => 0) adjusted { adjusted with
      registry := clearDiffs adjusted.registry } :=
    posted_registry id (fun _ _ => id) fun research member rooted => rooted.researches research member
  exact (rewarded.trans cleared).congr fun _ _ => rfl

/-! ## The emission in the books -/

/-- Recording a larger supply of core tokens lowers the surplus of them. -/
theorem posted_currentSupply {currentSupply : Asset} {emitted : Int}
    (added : state.props.currentSupply.add ⟨emitted, deipSymbol⟩ = .ok currentSupply) :
    Posted kept (Asset.mk (-emitted) deipSymbol).under state { state with
      props := { state.props with currentSupply } } := by
  obtain ⟨same, rfl⟩ := Asset.add_ok_iff.mp added
  constructor
  · exact fun sound => { sound with supply := same }
  · exact fun _ _ member _ => member
  · intro _ symbol
    simp only [surplus, held, outstanding, Asset.under]
    by_cases core : symbol = deipSymbol
    · simp only [core, if_true]
      omega
    · simp only [core, Ne.symm core, if_false]
      omega
  · intro _ aspect _ before
    cases aspect with
    | reserved => exact before
    | counted => exact { before with elected := before.elected }
    | rated => exact { before with tokens := before.tokens }
    | rooted => exact { before with balances := before.balances }
    | coreOnly => exact { before with vestings := before.vestings }
    | awarded _ _ => exact before

/-- A block emits the reward for contributions, which nobody gets. -/
theorem processFunds_posted (bearable : kept .counted → RewardsFit AdjustmentBearable state)
    (borne : kept .rated → RewardsFit Borne state)
    (processed : processFunds state = .ok next) :
    Posted kept (Asset.mk (-contributionReward state.props) deipSymbol).under state next := by
  simp only [processFunds, bind_ok_iff] at processed
  obtain ⟨witness, _, rewarded, distributed, currentSupply, added, increased⟩ := processed
  have first := distributeReward_posted bearable borne distributed
  have emitted : Posted kept _ rewarded _ := posted_currentSupply added
  have paid : Posted kept _ { rewarded with props := { rewarded.props with currentSupply } } next :=
    increaseCommonTokens_posted increased
  refine ((first.trans emitted).trans paid).congr fun _ symbol => ?_
  simp only [Asset.under]
  split <;> omega

end DeipChain.Ledger
