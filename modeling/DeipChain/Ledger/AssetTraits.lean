import DeipChain.Ledger.Writes

/-!
# The traits of assets

An asset gets its traits from the operation that creates it, where the last trait of a kind
decides, and keeps them: later steps change its supply only. So a state has the assets that
genesis lists and those that the steps created. No trait is checked on the way. The
holders of an asset are promised what its creator wrote, full share or not.
-/
namespace DeipChain.Ledger

open DeipChain.Result DeipChain.Table

variable {percentOf : Int → Int → Int} {genesis : GenesisState} {steps : List Step} {step : Step}
  {state next : State}

/-! ## What the evaluator reads -/

/-- All of the license revenue, at the precision of the share. -/
def Percent.IsFull (share : Percent) : Prop :=
  share.amount = 100 * 10 ^ share.decimals

instance (share : Percent) : Decidable share.IsFull :=
  inferInstanceAs (Decidable (_ = _))

namespace AssetTrait

def research : AssetTrait → Option Name
  | .researchSecurityToken researchExternalId _ => some researchExternalId
  | .researchLicenseRevenue _ => none

def holdersShare : AssetTrait → Option Percent
  | .researchSecurityToken _ _ => none
  | .researchLicenseRevenue holdersShare => some holdersShare

end AssetTrait

namespace CreateAssetOperation

variable {op : CreateAssetOperation}

/-- The last of the researches that the traits name. -/
def tokenizedResearch (op : CreateAssetOperation) : Option Name :=
  (op.traits.filterMap AssetTrait.research).getLast?

/-- The last of the shares that the traits promise to the holders. -/
def holdersShare (op : CreateAssetOperation) : Option Percent :=
  (op.traits.filterMap AssetTrait.holdersShare).getLast?

/-- The asset that the operation creates. -/
def asset (op : CreateAssetOperation) : AssetObject where
  symbol := op.symbol
  stringSymbol := op.stringSymbol
  issuer := op.issuer
  type := if op.tokenizedResearch.isSome then .researchSecurityToken else .basic
  tokenizedResearch := op.tokenizedResearch
  licenseRevenueHoldersShare := op.holdersShare
  maxSupply := op.maxSupply
  currentSupply := 0
  isDefault := false

theorem readTraits_last {traits : List AssetTrait} {start read : Option Name × Option Percent}
    (ran : traits.foldlM (readTrait state) start = .ok read) :
    read = ((traits.filterMap AssetTrait.research).getLast?.or start.1,
      (traits.filterMap AssetTrait.holdersShare).getLast?.or start.2) := by
  induction traits generalizing start with
  | nil => exact (pure_ok_iff.mp ran).symm
  | cons trait rest hypothesis =>
    rw [List.foldlM_cons, bind_ok_iff] at ran
    obtain ⟨middle, first, others⟩ := ran
    rw [hypothesis others]
    cases trait with
    | researchSecurityToken externalId researchGroup =>
      simp only [readTrait, State.getResearch, bind_ok_iff, expect_ok_iff, pure_ok_iff] at first
      obtain ⟨research, found, _, _, _, _, rfl⟩ := first
      have named : research.externalId = externalId := by simpa using List.find?_some found
      simp [AssetTrait.research, AssetTrait.holdersShare, List.getLast?_cons, named]
    | researchLicenseRevenue share =>
      obtain rfl := pure_ok_iff.mp first
      simp [AssetTrait.research, AssetTrait.holdersShare, List.getLast?_cons]

theorem apply_assets (applied : op.apply state = .ok next) :
    next.assets = state.assets ++ [op.asset] := by
  simp only [apply, createAsset, bind_ok_iff, pure_ok_iff] at applied
  obtain ⟨_, _, _, _, read, reads, assets, ⟨_, _, _, _, rfl⟩, rfl⟩ := applied
  rw [readTraits_last reads, Option.or_none, Option.or_none]
  rfl

/-! ## What `validate` lets pass -/

/-- Every trait is as its overload of the validator demands. -/
def TraitsInOrder (op : CreateAssetOperation) : Prop :=
  ∀ trait ∈ op.traits, trait.check = .ok ()

instance (op : CreateAssetOperation) : Decidable op.TraitsInOrder :=
  inferInstanceAs (Decidable (∀ trait ∈ op.traits, _))

theorem traits_pass (traits : List AssetTrait) : traits.forM validateTrait = .ok () :=
  forM_ok_iff.mpr fun _ _ => rfl

/-- The traits of an operation do not decide whether it is valid. -/
theorem validate_traits (op : CreateAssetOperation) (traits : List AssetTrait) :
    { op with traits := traits }.validate = op.validate := by
  rw [validate, validate, traits_pass, traits_pass]

end CreateAssetOperation

/-! ## What a step does to the assets -/

/-- An asset without its supply, which is what steps change of it. -/
def AssetObject.terms (asset : AssetObject) : AssetObject :=
  { asset with currentSupply := 0 }

def Step.createdAsset : Step → Option AssetObject
  | operation (.createAsset op) => some op.asset
  | _ => none

theorem adjustAssetCurrentSupply_terms {assets after : List AssetObject} {symbol : AssetSymbol}
    {delta : Int} (adjusted : adjustAssetCurrentSupply assets symbol delta = .ok after) :
    after.map AssetObject.terms = assets.map AssetObject.terms := by
  simp only [adjustAssetCurrentSupply, bind_ok_iff, pure_ok_iff] at adjusted
  obtain ⟨_, _, _, _, _, _, rfl⟩ := adjusted
  exact map_modifyFirst fun _ => rfl

/-- A step adds the asset that it creates and changes supplies. -/
theorem Step.assets_terms (applied : step.apply percentOf state = .ok next) :
    next.assets.map AssetObject.terms =
      state.assets.map AssetObject.terms ++ step.createdAsset.toList := by
  by_cases written : step.writes .assets = true
  · cases step with
    | operation op =>
      simp only [apply, Operation.apply, bind_ok_iff] at applied
      obtain ⟨_, _, _, _, evaluated⟩ := applied
      cases op with
      | createAsset op =>
        rw [op.apply_assets evaluated, List.map_append]
        rfl
      | issueAsset op =>
        simp only [Operation.evaluate, IssueAssetOperation.apply, issueAsset, bind_ok_iff,
          pure_ok_iff] at evaluated
        obtain ⟨_, _, _, _, _, _, _, _, _, _, assets, adjusted, _, _, rfl⟩ := evaluated
        rw [adjustAssetCurrentSupply_terms adjusted]
        exact (List.append_nil _).symm
      | reserveAsset op =>
        simp only [Operation.evaluate, ReserveAssetOperation.apply, reserveAsset, bind_ok_iff,
          pure_ok_iff] at evaluated
        obtain ⟨_, _, _, _, _, _, _, _, assets, adjusted, _, _, rfl⟩ := evaluated
        rw [adjustAssetCurrentSupply_terms adjusted]
        exact (List.append_nil _).symm
      | payAwardWithdrawalRequest op =>
        simp only [Operation.evaluate, Ledger.payAwardWithdrawalRequest, bind_ok_iff,
          pure_ok_iff] at evaluated
        obtain ⟨_, _, _, _, _, _, _, _, _, _, _, _, _, _, _, _, assets, adjusted, _, _, _, _, rfl⟩ :=
          evaluated
        rw [adjustAssetCurrentSupply_terms adjusted]
        exact (List.append_nil _).symm
      | _ => cases written
    | _ => cases written
  · have same := (Step.untouched applied).assets (Bool.not_eq_true _ ▸ written)
    have none : step.createdAsset = none := by
      cases step with
      | operation op =>
        cases op with
        | createAsset op => exact absurd rfl written
        | _ => rfl
      | _ => rfl
    rw [same, none]
    exact (List.append_nil _).symm

/-- The assets after a run are those before it and those that its steps create. -/
theorem steps_assets_terms (ran : steps.foldlM (Step.apply percentOf) state = .ok next) :
    next.assets.map AssetObject.terms =
      state.assets.map AssetObject.terms ++ steps.filterMap Step.createdAsset := by
  induction steps generalizing state with
  | nil =>
    obtain rfl := pure_ok_iff.mp ran
    exact (List.append_nil _).symm
  | cons step rest hypothesis =>
    rw [List.foldlM_cons, bind_ok_iff] at ran
    obtain ⟨middle, first, others⟩ := ran
    rw [hypothesis others, Step.assets_terms first, List.append_assoc, List.filterMap_cons]
    cases step.createdAsset <;> rfl

/-! ## The shares that holders are promised -/

/-- The holders of each asset with a promised share are promised all of the revenue. -/
def State.SharesFull (state : State) : Prop :=
  ∀ asset ∈ state.assets, ∀ share ∈ asset.licenseRevenueHoldersShare, share.IsFull

/-- The assets of genesis promise nothing. -/
theorem GenesisState.init_shareless (inited : genesis.init = .ok state) :
    ∀ asset ∈ state.assets, asset.licenseRevenueHoldersShare = none := by
  obtain ⟨assets, issued, framed⟩ := GenesisState.init_framed inited
  have same : state.assets = assets := (Untouched.of_rest framed.1).assets rfl
  rw [same]
  simp only [initAssets, createAsset, bind_ok_iff, pure_ok_iff] at issued
  obtain ⟨_, _, core, ⟨_, _, _, _, rfl⟩, issued⟩ := issued
  refine foldlM_invariant (fun _ reached => ∀ asset ∈ reached,
    asset.licenseRevenueHoldersShare = none) ?_ ?_ issued
  · intro asset rest assets after before added
    simp only [initAsset, createAsset, bind_ok_iff, pure_ok_iff] at added
    obtain ⟨_, _, _, _, _, _, rfl⟩ := added
    exact forall_append_singleton before rfl
  · intro asset member
    rw [List.mem_singleton.mp member]
    rfl

theorem run_sharesFull_iff (ran : run percentOf genesis steps = .ok state) :
    state.SharesFull ↔ ∀ op : CreateAssetOperation, .operation (.createAsset op) ∈ steps →
      ∀ share ∈ op.holdersShare, share.IsFull := by
  obtain ⟨start, inited, ran⟩ := run_ok_iff.mp ran
  have onTerms : state.SharesFull ↔ ∀ asset ∈ state.assets.map AssetObject.terms,
      ∀ share ∈ asset.licenseRevenueHoldersShare, share.IsFull := by
    rw [List.forall_mem_map]
    rfl
  rw [onTerms, steps_assets_terms ran, List.forall_mem_append]
  constructor
  · rintro ⟨_, created⟩ op member
    exact created op.asset (List.mem_filterMap.mpr ⟨_, member, rfl⟩)
  · intro full
    constructor
    · intro asset member share promised
      obtain ⟨old, listed, rfl⟩ := List.mem_map.mp member
      have none : old.terms.licenseRevenueHoldersShare = none :=
        GenesisState.init_shareless inited old listed
      cases none.symm.trans promised
    · intro asset member
      obtain ⟨step, listed, created⟩ := List.mem_filterMap.mp member
      cases step with
      | operation op =>
        cases op with
        | createAsset op => exact Option.some.inj created ▸ full op listed
        | _ => cases created
      | _ => cases created

/-- `validate` keeps its word for an operation whose traits are in order or which it refuses
    anyway, and the shares of a state are full exactly if the last one of each operation that
    created an asset was. -/
theorem createAsset_traits_iff (percentOf : Int → Int → Int) (genesis : GenesisState)
    (steps : List Step) (state : State) (ran : run percentOf genesis steps = .ok state) :
    (∀ op : CreateAssetOperation, (op.validate = .ok () → op.TraitsInOrder) ↔
      op.TraitsInOrder ∨ { op with traits := [] }.validate ≠ .ok ()) ∧
    (state.SharesFull ↔ ∀ op : CreateAssetOperation, .operation (.createAsset op) ∈ steps →
      ∀ share ∈ op.holdersShare, share.IsFull) := by
  refine ⟨fun op => ?_, run_sharesFull_iff ran⟩
  rw [op.validate_traits [], imp_iff_or_not]

/-- A security token whose creator promises a share of the license revenue. -/
def Sample.promise (share : Percent) : CreateAssetOperation where
  issuer := "alice"
  symbol := Sample.token
  stringSymbol := "LENS"
  maxSupply := 100
  traits := [.researchSecurityToken "lens" "lab", .researchLicenseRevenue share]

theorem Sample.promise_full : ∃ state,
    run Sample.percentOf Sample.genesis
      (Sample.block 1 [.createAsset (Sample.promise ⟨1000, 1⟩)]).steps = .ok state ∧
    state.SharesFull := by
  obtain ⟨state, ran⟩ := exists_ok (run Sample.percentOf Sample.genesis
    (Sample.block 1 [.createAsset (Sample.promise ⟨1000, 1⟩)]).steps) (by decide +kernel)
  refine ⟨state, ran, (createAsset_traits_iff _ _ _ _ ran).2.mpr ?_⟩
  intro op member
  obtain rfl : op = Sample.promise ⟨1000, 1⟩ := by simpa [Sample.block, Block.steps] using member
  decide

/-- Half of the revenue is promised and a state is reached in which the asset says so. -/
theorem Sample.promise_half : (Sample.promise ⟨5000, 2⟩).validate = .ok () ∧
    ¬ (Sample.promise ⟨5000, 2⟩).TraitsInOrder ∧
    ∃ state, run Sample.percentOf Sample.genesis
      (Sample.block 1 [.createAsset (Sample.promise ⟨5000, 2⟩)]).steps = .ok state ∧
      ¬ state.SharesFull := by
  refine ⟨by decide +kernel, by decide +kernel, ?_⟩
  obtain ⟨state, ran, partly⟩ := exists_ok_of_any (run Sample.percentOf Sample.genesis
    (Sample.block 1 [.createAsset (Sample.promise ⟨5000, 2⟩)]).steps)
    (fun state => state.assets.any fun asset => asset.licenseRevenueHoldersShare == some ⟨5000, 2⟩)
    (by decide +kernel)
  refine ⟨state, ran, fun full => ?_⟩
  obtain ⟨asset, member, promised⟩ := List.any_eq_true.mp partly
  have whole := full asset member ⟨5000, 2⟩ (beq_iff_eq.mp promised)
  revert whole
  decide

end DeipChain.Ledger
