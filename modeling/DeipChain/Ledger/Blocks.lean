import DeipChain.Ledger.GenesisBooks

/-!
# Blocks and the ledger

A block applies the operations of its transactions and then works off what is due:
expired proposals, discipline supplies, token sales, the emission, withdrawals and
approved claims of expertise. A proposal that is executed applies operations that were
validated with it, and one that fails leaves the ledger as it was. So a block is given
here by the operations that take effect in it.

Operations that write nothing the ledger reads are left out, and those that write only
the assessment of research are given by what they leave there.
-/
namespace DeipChain.Ledger

open DeipChain.Result DeipChain.Table

inductive Operation where
  | transfer (op : TransferOperation)
  | transferToCommonTokens (op : TransferToCommonTokensOperation)
  | withdrawCommonTokens (op : WithdrawCommonTokensOperation)
  | setWithdrawCommonTokensRoute (op : SetWithdrawCommonTokensRouteOperation)
  | createAccount (op : CreateAccountOperation)
  | witnessUpdate (op : WitnessUpdateOperation)
  | accountWitnessVote (op : AccountWitnessVoteOperation)
  | accountWitnessProxy (op : AccountWitnessProxyOperation)
  | createResearchTokenSale (op : CreateResearchTokenSaleOperation)
  | contributeToTokenSale (op : ContributeToTokenSaleOperation)
  | createVestingBalance (op : CreateVestingBalanceOperation)
  | withdrawVestingBalance (op : WithdrawVestingBalanceOperation)
  | createGrant (op : CreateGrantOperation)
  | createAsset (op : CreateAssetOperation)
  | issueAsset (op : IssueAssetOperation)
  | reserveAsset (op : ReserveAssetOperation)
  | createAward (op : CreateAwardOperation)
  | approveAward (op : AwardDecision)
  | rejectAward (op : AwardDecision)
  | createAwardWithdrawalRequest (op : CreateAwardWithdrawalRequestOperation)
  | certifyAwardWithdrawalRequest (op : RequestAction)
  | approveAwardWithdrawalRequest (op : RequestAction)
  | rejectAwardWithdrawalRequest (op : RequestAction)
  | payAwardWithdrawalRequest (op : RequestAction)
  | createResearchLicense (op : CreateResearchLicenseOperation)
  | createResearch (op : CreateResearchOperation)
  | assess (written : Assessment)

namespace Operation

/-- `operation_validate`. -/
def validate : Operation → Except String Unit
  | transfer op => op.validate
  | transferToCommonTokens op => op.validate
  | setWithdrawCommonTokensRoute op => op.validate
  | createAccount op => op.validate
  | accountWitnessProxy op => op.validate
  | createResearchTokenSale op => op.validate
  | contributeToTokenSale op => op.validate
  | createVestingBalance op => op.validate
  | withdrawVestingBalance op => op.validate
  | createGrant op => op.validate
  | createAsset op => op.validate
  | issueAsset op => op.validate
  | reserveAsset op => op.validate
  | createAward op => op.validate
  | createAwardWithdrawalRequest op => op.validate
  | createResearchLicense op => op.validate
  | _ => return ()

/-- Whoever authorizes an operation has an account. Only the creator of an account is not
    looked up by the evaluator as well. -/
def authorize (state : State) : Operation → Except String Unit
  | createAccount op => require (state.accountExists op.creator) unknownKey
  | _ => return ()

/-- `apply_operation`. -/
def evaluate (percentOf : Int → Int → Int) (state : State) : Operation → Except String State
  | transfer op => op.apply state
  | transferToCommonTokens op => op.apply state
  | withdrawCommonTokens op => op.apply state
  | setWithdrawCommonTokensRoute op => op.apply state
  | createAccount op => op.apply state
  | witnessUpdate op => op.apply state
  | accountWitnessVote op => op.apply state
  | accountWitnessProxy op => op.apply state
  | createResearchTokenSale op => op.apply state
  | contributeToTokenSale op => op.apply percentOf state
  | createVestingBalance op => op.apply state
  | withdrawVestingBalance op => op.apply state
  | createGrant op => op.apply state
  | createAsset op => op.apply state
  | issueAsset op => op.apply state
  | reserveAsset op => op.apply state
  | createAward op => op.apply state
  | approveAward op => Ledger.approveAward state op
  | rejectAward op => Ledger.rejectAward state op
  | createAwardWithdrawalRequest op => op.apply state
  | certifyAwardWithdrawalRequest op => Ledger.certifyAwardWithdrawalRequest state op
  | approveAwardWithdrawalRequest op => Ledger.approveAwardWithdrawalRequest state op
  | rejectAwardWithdrawalRequest op => Ledger.rejectAwardWithdrawalRequest state op
  | payAwardWithdrawalRequest op => Ledger.payAwardWithdrawalRequest state op
  | createResearchLicense op => op.apply state
  | createResearch op => op.apply state
  | assess written => return written.apply state

/-- An operation of a transaction or of a proposal. -/
def apply (percentOf : Int → Int → Int) (state : State) (op : Operation) :
    Except String State := do
  op.validate
  op.authorize state
  op.evaluate percentOf state

end Operation

/-- The witnesses with the kinds of their slots. -/
def Witness.assigned (kinds : List (Name × ScheduleKind)) (witness : Witness) : Witness :=
  { witness with schedule := (kinds.lookup witness.owner).getD witness.schedule }

/-- What `_apply_block` does to the ledger, part by part. -/
inductive Step where
  | witness (name : Name)
  | operation (op : Operation)
  | update (headBlockNumber : Nat) (time : Time)
  | clearExpiredDisciplineSupplies
  | schedule (schedule : WitnessSchedule) (kinds : List (Name × ScheduleKind))
  | processResearchTokenSales
  | processFunds
  | processCommonTokensWithdrawals
  | processDisciplineSupplies
  | allocateExpertise (claimer : Name) (discipline : Nat)

def Step.apply (percentOf : Int → Int → Int) (state : State) : Step → Except String State
  | witness name => return { state with props := { state.props with currentWitness := name } }
  | operation op => op.apply percentOf state
  | update headBlockNumber time =>
    return { state with props := { state.props with headBlockNumber, time } }
  | clearExpiredDisciplineSupplies => Ledger.clearExpiredDisciplineSupplies state
  | schedule upcoming kinds =>
    return { state with schedule := upcoming, witnesses := state.witnesses.map (Witness.assigned kinds) }
  | processResearchTokenSales => Ledger.processResearchTokenSales percentOf state
  | processFunds => Ledger.processFunds state
  | processCommonTokensWithdrawals => Ledger.processCommonTokensWithdrawals state
  | processDisciplineSupplies => Ledger.processDisciplineSupplies state
  | allocateExpertise claimer discipline =>
    createExpertToken state claimer discipline expertiseClaimAmount

/-- A block as far as the ledger depends on it: what it and the proposals that expire at its
    end execute, the schedule that follows it, and the claims of expertise that have a
    quorum. -/
structure Block where
  number : Nat
  time : Time
  witness : Name
  operations : List Operation
  expired : List Operation
  schedule : WitnessSchedule
  kinds : List (Name × ScheduleKind)
  allocations : List (Name × Nat)

/-- The order of `_apply_block`. -/
def Block.steps (block : Block) : List Step :=
  Step.witness block.witness :: block.operations.map Step.operation ++
    Step.update block.number block.time :: block.expired.map Step.operation ++
    [.clearExpiredDisciplineSupplies, .schedule block.schedule block.kinds,
      .processResearchTokenSales, .processFunds, .processCommonTokensWithdrawals,
      .processDisciplineSupplies] ++
    block.allocations.map fun allocation => .allocateExpertise allocation.1 allocation.2

/-- A run from genesis. Its steps are those of blocks, or the first of them. -/
def run (percentOf : Int → Int → Int) (genesis : GenesisState) (steps : List Step) :
    Except String State := do
  let start ← genesis.init
  steps.foldlM (Step.apply percentOf) start

/-! ## What the steps bring in -/

section Steps

variable {kept : Aspect → Prop} {state next : State} {percentOf : Int → Int → Int}

/-- What an operation may not do if the books shall keep some aspects. -/
def Operation.Fits (kept : Aspect → Prop) : Operation → Prop
  | withdrawCommonTokens op => kept .reserved → 0 ≤ op.totalCommonTokensAmount
  | contributeToTokenSale op => kept .coreOnly → op.amount.symbol = deipSymbol
  | createGrant op => kept .coreOnly → op.amount.symbol = deipSymbol
  | approveAward _ => ¬ kept .coreOnly ∧ ∀ old olds, ¬ kept (.awarded old olds)
  | createAward _ | rejectAward _ | createAwardWithdrawalRequest _
  | certifyAwardWithdrawalRequest _ | approveAwardWithdrawalRequest _
  | rejectAwardWithdrawalRequest _ | payAwardWithdrawalRequest _ =>
    ∀ old olds, ¬ kept (.awarded old olds)
  | _ => True

/-- No request in an issued asset is paid. -/
def Operation.Burnless (state : State) : Operation → Prop
  | payAwardWithdrawalRequest op => ∀ request,
      state.requests.find? (fun request =>
        request.key == (op.awardNumber, op.paymentNumber)) = some request →
      request.amount.symbol = deipSymbol
  | _ => True

/-- Operations bring nothing in, but a payment of a request burns what it pays. -/
theorem Operation.apply_posted {op : Operation} (fits : op.Fits kept)
    (applied : op.apply percentOf state = .ok next) :
    ∃ change, Posted kept change state next ∧ change deipSymbol = 0 ∧
      (op.Burnless state → ∀ symbol, change symbol = 0) := by
  simp only [apply, bind_ok_iff] at applied
  obtain ⟨_, valid, _, authorized, evaluated⟩ := applied
  have nothing (posted : Posted kept (fun _ => 0) state next) :
      ∃ change, Posted kept change state next ∧ change deipSymbol = 0 ∧
        (op.Burnless state → ∀ symbol, change symbol = 0) :=
    ⟨fun _ => 0, posted, rfl, fun _ _ => rfl⟩
  cases op with
  | transfer op => exact nothing (op.apply_posted valid evaluated)
  | transferToCommonTokens op => exact nothing (op.apply_posted valid evaluated)
  | withdrawCommonTokens op => exact nothing (op.apply_posted fits evaluated)
  | setWithdrawCommonTokensRoute op => exact nothing (op.apply_posted evaluated)
  | createAccount op =>
    refine nothing (op.apply_posted (fun _ => .inr ?_) evaluated)
    exact State.known_of_exists (require_ok_iff.mp authorized)
  | witnessUpdate op => exact nothing (op.apply_posted evaluated)
  | accountWitnessVote op => exact nothing (op.apply_revoted evaluated).posted
  | accountWitnessProxy op => exact nothing (op.apply_revoted evaluated).posted
  | createResearchTokenSale op => exact nothing (op.apply_posted valid evaluated)
  | contributeToTokenSale op => exact nothing (op.apply_posted fits evaluated)
  | createVestingBalance op => exact nothing (op.apply_posted valid evaluated)
  | withdrawVestingBalance op => exact nothing (op.apply_posted evaluated)
  | createGrant op => exact nothing (op.apply_posted valid fits evaluated)
  | createAsset op => exact nothing (op.apply_posted evaluated)
  | issueAsset op => exact nothing (op.apply_posted valid evaluated)
  | reserveAsset op => exact nothing (op.apply_posted valid evaluated)
  | createAward op => exact nothing (op.apply_posted fits valid evaluated)
  | approveAward op => exact nothing (approveAward_posted fits.2 fits.1 evaluated)
  | rejectAward op => exact nothing (rejectAward_posted fits evaluated)
  | createAwardWithdrawalRequest op => exact nothing (op.apply_posted fits evaluated)
  | certifyAwardWithdrawalRequest op =>
    exact nothing (certifyAwardWithdrawalRequest_posted fits evaluated)
  | approveAwardWithdrawalRequest op =>
    exact nothing (approveAwardWithdrawalRequest_posted fits evaluated)
  | rejectAwardWithdrawalRequest op =>
    exact nothing (rejectAwardWithdrawalRequest_posted fits evaluated)
  | payAwardWithdrawalRequest op =>
    obtain ⟨request, found, posted⟩ := payAwardWithdrawalRequest_posted fits evaluated
    refine ⟨_, posted, if_pos rfl, fun core symbol => ?_⟩
    rw [Asset.issued, Asset.under, core request found]
    split
    · rfl
    · rename_i foreign
      exact if_neg (Ne.symm foreign)
  | createResearchLicense op => exact nothing (op.apply_posted evaluated)
  | createResearch op => exact nothing (op.apply_posted evaluated)
  | assess written =>
    obtain rfl := pure_ok_iff.mp evaluated
    exact nothing (written.apply_posted kept state)

/-- What a step may not do if the books shall keep some aspects. -/
def Step.Fits (kept : Aspect → Prop) (state : State) : Step → Prop
  | operation op => op.Fits kept
  | processFunds => (kept .counted → RewardsFit AdjustmentBearable state) ∧
    (kept .rated → RewardsFit Borne state)
  | _ => True

/-- No request in an issued asset is paid. -/
def Step.Burnless (state : State) : Step → Prop
  | operation op => op.Burnless state
  | _ => True

/-- The emission and the discipline supplies bring in no more and no less than they
    record. -/
def Step.Balanced (state : State) : Step → Prop
  | clearExpiredDisciplineSupplies =>
    ∀ supply ∈ state.supplies, supply.endTime < state.props.time → Settles state supply
  | processFunds => contributionReward state.props = 0
  | processDisciplineSupplies =>
    ∀ supply ∈ state.supplies, supply.startTime ≤ state.props.time → Spends state supply
  | _ => True

theorem posted_witnesses (kept : Aspect → Prop) (state : State) (schedule : WitnessSchedule)
    (kinds : List (Name × ScheduleKind)) :
    Posted kept (fun _ => 0) state
      { state with schedule, witnesses := state.witnesses.map (Witness.assigned kinds) } where
  sound sound := { sound with solvent := sound.solvent }
  closed _ _ member _ := member
  surplus _ symbol := (add_zero _).symm
  holds _ aspect _ before := by
    cases aspect with
    | reserved => exact before
    | counted => exact { before with elected := List.forall_mem_map.mpr before.elected }
    | rated => exact { before with tokens := before.tokens }
    | rooted => exact { before with balances := before.balances }
    | coreOnly => exact { before with vestings := before.vestings }
    | awarded _ _ => exact before

theorem Step.apply_posted {step : Step} (fits : step.Fits kept state)
    (applied : step.apply percentOf state = .ok next) :
    ∃ change, Posted kept change state next ∧
      (Sound state → step.Balanced state → change deipSymbol = 0) ∧
      (step.Burnless state → ∀ symbol, symbol ≠ deipSymbol → change symbol = 0) := by
  have nothing (posted : Posted kept (fun _ => 0) state next) :
      ∃ change, Posted kept change state next ∧
        (Sound state → step.Balanced state → change deipSymbol = 0) ∧
        (step.Burnless state → ∀ symbol, symbol ≠ deipSymbol → change symbol = 0) :=
    ⟨fun _ => 0, posted, fun _ _ => rfl, fun _ _ _ => rfl⟩
  have foreign (amount : Int) (symbol : AssetSymbol) (apart : symbol ≠ deipSymbol) :
      (Asset.mk amount deipSymbol).under symbol = 0 := if_neg (Ne.symm apart)
  cases step with
  | witness name =>
    obtain rfl := pure_ok_iff.mp applied
    exact nothing (posted_unrecorded kept state state.routes state.schedule
      state.props.headBlockNumber state.props.time name)
  | operation op =>
    obtain ⟨change, posted, core, others⟩ := Operation.apply_posted fits applied
    exact ⟨change, posted, fun _ _ => core, fun burnless symbol _ => others burnless symbol⟩
  | update headBlockNumber time =>
    obtain rfl := pure_ok_iff.mp applied
    exact nothing (posted_unrecorded kept state state.routes state.schedule headBlockNumber time
      state.props.currentWitness)
  | clearExpiredDisciplineSupplies =>
    obtain ⟨excess, posted, exact⟩ := clearExpiredDisciplineSupplies_posted applied
    refine ⟨_, posted, fun sound settles => ?_, fun _ symbol apart => foreign excess symbol apart⟩
    rw [Asset.under, if_pos rfl, exact sound settles]
  | schedule upcoming kinds =>
    obtain rfl := pure_ok_iff.mp applied
    exact nothing (posted_witnesses kept state upcoming kinds)
  | processResearchTokenSales => exact nothing (processResearchTokenSales_posted applied)
  | processFunds =>
    refine ⟨_, processFunds_posted fits.1 fits.2 applied, fun _ unpaid => ?_,
      fun _ symbol apart => foreign _ symbol apart⟩
    rw [Asset.under, if_pos rfl, unpaid, neg_zero]
  | processCommonTokensWithdrawals =>
    refine nothing (Posted.of_sound fun sound => ?_)
    obtain ⟨paid, released⟩ :=
      processCommonTokensWithdrawals_released (grounds state) sound.named applied
    exact released.posted
  | processDisciplineSupplies =>
    obtain ⟨excess, posted, exact⟩ := processDisciplineSupplies_posted applied
    refine ⟨_, posted, fun sound spends => ?_, fun _ symbol apart => foreign excess symbol apart⟩
    rw [Asset.under, if_pos rfl, exact sound spends]
  | allocateExpertise claimer discipline =>
    exact nothing (createExpertToken_posted (fun _ => by decide) applied)

end Steps

/-! ## A small chain -/

namespace Sample

/-- The accounts lead their own research groups, and the users are in a common one. -/
def members : List (Name × Nat) :=
  [(initialDelegateAccountName, 0), ("alice", 1), ("bob", 2), ("carol", 3), ("alice", 4), ("bob", 4),
    ("carol", 4)]

/-- Three users with a research group, and core tokens too few to emit any. -/
def genesis : GenesisState where
  initialTimestamp := 1
  initSupply := 1000
  registrarName := registrarAccountName
  registrarCommonTokens := 0
  accounts := [initialDelegateAccountName, "alice", "bob", "carol"]
  accountBalances := [⟨"alice", 600, GenesisState.coreName⟩, ⟨"bob", 400, GenesisState.coreName⟩]
  assets := []
  researchGroups := [⟨"lab", "alice", ["alice", "bob", "carol"]⟩]
  witnessCandidates := [initialDelegateAccountName]
  disciplines := [⟨commonDisciplineId, ""⟩, ⟨"physics", ""⟩, ⟨"optics", "physics"⟩]
  expertTokens := []
  researches := [⟨"lens", "lab"⟩]
  assessment := ⟨[], [], [], [], members⟩
  vestingBalances := []

def block (number : Nat) (operations : List Operation) : Block where
  number := number
  time := 1 + 3 * number
  witness := initialDelegateAccountName
  operations := operations
  expired := []
  schedule := ⟨1, 5, 25, 0⟩
  kinds := []
  allocations := []

/-- A part of a whole in hundredths of a percent. -/
def percentOf (part whole : Int) : Int :=
  part * fullPercent / whole

/-- A security token of the research. -/
def token : AssetSymbol := 3

/-- The token is issued and put on sale. -/
def tokenize : List Operation :=
  [.createAsset ⟨"alice", token, "LENS", 100, [.researchSecurityToken "lens" "lab"]⟩,
    .issueAsset ⟨"alice", ⟨50, token⟩, "lab"⟩,
    .createResearchTokenSale ⟨"sale", "lab", "lens", 4, 10, [⟨30, token⟩], ⟨10, deipSymbol⟩,
      ⟨100, deipSymbol⟩⟩]

/-- A grant in an issued asset is awarded, and a part of the award is requested. -/
def award : List Operation :=
  [.createAsset ⟨"alice", usdSymbol, "USD", 1000, []⟩,
    .issueAsset ⟨"alice", ⟨1000, usdSymbol⟩, "alice"⟩,
    .createGrant ⟨"grant", "alice", ⟨500, usdSymbol⟩, ["physics"], .fundingOpportunityAnnouncement
      ⟨"alice", "alice", "alice", ⟨200, usdSymbol⟩, ⟨1, usdSymbol⟩, 1, 1, 100, ["alice"]⟩⟩,
    .createAward ⟨"award", "grant", ⟨100, usdSymbol⟩, "bob", "lens", "bob", ⟨0, 2⟩, [], "alice"⟩,
    .approveAward ⟨"award", "alice"⟩,
    .createAwardWithdrawalRequest ⟨"payment", "award", none, "bob", ⟨10, usdSymbol⟩⟩]

/-- The request is certified, approved and paid. -/
def payment : List Operation :=
  [.certifyAwardWithdrawalRequest ⟨"payment", "award", none, "bob"⟩,
    .approveAwardWithdrawalRequest ⟨"payment", "award", none, "alice"⟩,
    .payAwardWithdrawalRequest ⟨"payment", "award", none, "alice"⟩]

/-- A content of one user lost value by the review of the other. -/
def devalued (loss : Int) : Assessment where
  contents := [⟨0, false, true, ["alice"]⟩]
  expertiseContributions := [⟨1, 0, 0, -loss, [⟨-loss, .review, 0⟩]⟩]
  reviews := [⟨0, 0, "bob", false, [(1, 2500)]⟩]
  reviewVotes := []
  members := members

end Sample

end DeipChain.Ledger
