import DeipChain.Ledger.Genesis

/-!
# Genesis in the books

The books of an accepted genesis are sound, and the ledger holds what is recorded as
supplied, except for the vesting balances of the genesis file. The other aspects of the
books depend on what the file states.
-/
namespace DeipChain.Ledger

open DeipChain.Result DeipChain.Table

namespace GenesisState

variable {kept : Aspect → Prop} {genesis : GenesisState} {state next : State}

/-! ## The assets of genesis -/

/-- The assets have different symbols and names, and the supply of each issued asset is what
    the balances of its name hold. -/
structure AssetsListed (genesis : GenesisState) (assets : List AssetObject) : Prop where
  symbols : (assets.map AssetObject.symbol).Nodup
  names : (assets.map AssetObject.stringSymbol).Nodup
  basic : ∀ asset ∈ assets, asset.type = .basic
  supplied : ∀ asset ∈ assets, asset.symbol ≠ deipSymbol →
    asset.currentSupply = genesis.listed asset.stringSymbol
  core : ∀ asset ∈ assets, asset.symbol = deipSymbol → asset.stringSymbol = coreName
  known : deipSymbol ∈ assets.map AssetObject.symbol

theorem initAssets_listed {assets : List AssetObject} (inited : genesis.initAssets = .ok assets) :
    genesis.AssetsListed assets ∧
      genesis.listed coreName = genesis.initSupply - genesis.registrarCommonTokens := by
  simp only [initAssets, createAsset, bind_ok_iff, require_ok_iff, pure_ok_iff] at inited
  obtain ⟨_, core, _, ⟨_, _, _, _, rfl⟩, ran⟩ := inited
  refine ⟨?_, core⟩
  refine foldlM_invariant (fun _ assets => genesis.AssetsListed assets) ?_ ?_ ran
  · intro asset rest assets next before added
    simp only [initAsset, createAsset, bind_ok_iff, require_ok_iff, pure_ok_iff] at added
    obtain ⟨_, supplied, _, _, _, fresh, rfl⟩ := added
    refine ⟨?_, ?_, ?_, ?_, ?_, ?_⟩
    · exact nodup_append_fresh before.symbols fun other member => (fresh other member).1
    · exact nodup_append_fresh before.names fun other member => (fresh other member).2
    · exact forall_append_singleton before.basic rfl
    · exact forall_append_singleton before.supplied fun _ => supplied.symm
    · refine forall_append_singleton before.core fun same => ?_
      obtain ⟨other, member, symbol⟩ := List.mem_map.mp before.known
      exact absurd (symbol.trans same.symm) (fresh other member).1
    · rw [List.map_append]
      exact List.mem_append_left _ before.known
  · refine ⟨List.nodup_singleton _, List.nodup_singleton _, ?_, ?_, ?_, List.mem_singleton.mpr rfl⟩
    · exact List.forall_mem_singleton.mpr rfl
    · exact List.forall_mem_singleton.mpr fun foreign => absurd rfl foreign
    · exact List.forall_mem_singleton.mpr fun _ => rfl

/-- The books of the tables that genesis starts from. -/
theorem blank_sound {assets : List AssetObject} (listed : genesis.AssetsListed assets) :
    Sound (genesis.blank assets) where
  solvent := List.forall_mem_nil _
  thawed := List.forall_mem_nil _
  distinct := List.nodup_nil
  named := List.nodup_nil
  funded := rfl
  supply := rfl
  fund := rfl
  assets := ⟨listed.symbols, listed.known, fun asset member _ => listed.basic asset member⟩
  researches := rfl
  sales := ⟨rfl, List.forall_mem_nil _, List.forall_mem_nil _, List.forall_mem_nil _,
    List.forall_mem_nil _, List.forall_mem_nil _, List.forall_mem_nil _, fun _ _ => rfl⟩
  awards := ⟨List.nodup_nil, List.forall_mem_nil _, List.forall_mem_nil _⟩
  supplies := ⟨List.nodup_nil, List.forall_mem_nil _⟩

theorem blank_holds {assets : List AssetObject} (aspect : Aspect)
    (empty : ∀ recipients requests, aspect = .awarded recipients requests →
      recipients = [] ∧ requests = []) : Holds aspect (genesis.blank assets) := by
  cases aspect with
  | reserved => exact List.forall_mem_nil _
  | counted => exact ⟨List.forall_mem_nil _, rfl, List.forall_mem_nil _⟩
  | rated => exact ⟨List.forall_mem_nil _, List.forall_mem_nil _, List.forall_mem_nil _, rfl⟩
  | rooted =>
    exact ⟨List.forall_mem_nil _, List.forall_mem_nil _, List.forall_mem_nil _,
      List.forall_mem_nil _, List.forall_mem_nil _, List.forall_mem_nil _⟩
  | coreOnly =>
    exact ⟨List.forall_mem_nil _, List.forall_mem_nil _, List.forall_mem_nil _,
      List.forall_mem_nil _, List.forall_mem_nil _, rfl⟩
  | awarded recipients requests =>
    obtain ⟨rfl, rfl⟩ := empty recipients requests rfl
    exact ⟨rfl, rfl⟩

/-! ## The steps of genesis -/

theorem initRegistrar_posted {assets : List AssetObject}
    (positive : kept .reserved → 0 ≤ genesis.registrarCommonTokens) :
    Posted kept (Asset.mk genesis.registrarCommonTokens deipSymbol).under (genesis.blank assets)
      (genesis.initRegistrar (genesis.blank assets)) := by
  constructor
  · intro sound
    exact { sound with
      named := List.nodup_singleton _
      funded := by simp [initRegistrar, blank] }
  · exact fun _ _ member _ => member
  · intro _ symbol
    simp only [surplus, held, outstanding, initRegistrar, Asset.under]
    by_cases core : symbol = deipSymbol
    · simp only [core, if_true]
      omega
    · simp only [core, Ne.symm core, if_false]
      omega
  · intro _ aspect keeps before
    cases aspect with
    | reserved =>
      exact List.forall_mem_singleton.mpr ⟨positive keeps, le_refl _, le_refl _, le_refl _⟩
    | counted =>
      exact ⟨List.forall_mem_singleton.mpr (le_refl _), by simp [initRegistrar, blank, freshAccount],
        before.elected⟩
    | rated =>
      exact ⟨List.forall_mem_nil _, List.forall_mem_nil _, List.forall_mem_singleton.mpr rfl,
        by simp [initRegistrar, blank, freshAccount]⟩
    | rooted =>
      exact ⟨List.forall_mem_nil _, List.forall_mem_nil _, List.forall_mem_nil _,
        List.forall_mem_nil _, List.forall_mem_nil _, List.forall_mem_nil _⟩
    | coreOnly => exact { before with vestings := before.vestings }
    | awarded _ _ => exact before

/-- Steps over a list that bring nothing in. -/
theorem foldlM_posted {A : Type} {step : State → A → Except String State} {elements : List A}
    (round : ∀ element state next, step state element = .ok next →
      Posted kept (fun _ => 0) state next)
    (ran : elements.foldlM step state = .ok next) : Posted kept (fun _ => 0) state next := by
  refine foldlM_invariant (fun _ reached => Posted kept (fun _ => 0) state reached) ?_
    (Posted.refl kept state) ran
  intro element rest middle next before stepped
  exact (before.trans (round element middle next stepped)).congr fun _ _ => rfl

theorem initAccounts_posted
    (inited : genesis.accounts.foldlM (fun state name =>
      createAccountByFaucets state name genesis.registrarName minAccountCreationFee true) state =
        .ok next) : Posted kept (fun _ => 0) state next :=
  foldlM_posted (fun _ _ _ created => createAccountByFaucets_posted (fun _ => .inl rfl) created)
    inited

/-- The accounts of the file are known after their creation. -/
theorem initAccounts_known {accounts : List Name} {creator : Name} {fee : Asset}
    (inited : accounts.foldlM (fun state name => createAccountByFaucets state name creator fee true)
      state = .ok next) (name : Name) (known : state.Known name ∨ name ∈ accounts) :
    next.Known name := by
  induction accounts generalizing state with
  | nil =>
    rw [List.foldlM_nil, pure_ok_iff] at inited
    exact inited ▸ known.resolve_right List.not_mem_nil
  | cons account rest hypothesis =>
    rw [List.foldlM_cons, bind_ok_iff] at inited
    obtain ⟨middle, created, others⟩ := inited
    obtain ⟨own, old⟩ := createAccountByFaucets_known created
    apply hypothesis others
    rcases known with before | listed
    · exact .inl (old name before)
    · rcases List.mem_cons.mp listed with rfl | later
      · exact .inl own
      · exact .inr later

/-- What a listed balance counts for under a symbol. -/
def balanceUnder (assets : List AssetObject) (symbol : AssetSymbol) (balance : GenesisBalance) : Int :=
  match assets.find? fun asset => asset.stringSymbol == balance.symbol with
  | some asset => if asset.symbol = symbol then balance.amount else 0
  | none => 0

theorem initAccountBalance_posted {balance : GenesisBalance}
    (owner : kept .rooted → state.Known balance.owner)
    (inited : initAccountBalance state balance = .ok next) :
    Posted kept (fun symbol => balanceUnder state.assets symbol balance) state next ∧
      ∃ balances, next = { state with balances } := by
  simp only [initAccountBalance, bind_ok_iff, expect_ok_iff, pure_ok_iff] at inited
  obtain ⟨asset, found, balances, adjusted, rfl⟩ := inited
  have moved := adjustAccountBalance_moved
    (fun name _ => kept .rooted → Rooted state → state.Known name)
    (.inl fun keeps _ => owner keeps) adjusted
  have posted : Posted kept (Asset.mk balance.amount asset.symbol).under state
      { state with balances } :=
    moved.posted_of fun keeps rooted row member =>
      moved.owned (fun old listed _ _ => rooted.balances old listed) row member keeps rooted
  refine ⟨posted.congr fun _ symbol => ?_, balances, rfl⟩
  rw [balanceUnder, found]
  rfl

theorem initAccountBalances_posted {balances : List GenesisBalance}
    (owners : kept .rooted → ∀ balance ∈ balances, state.Known balance.owner)
    (inited : balances.foldlM initAccountBalance state = .ok next) :
    Posted kept (fun symbol => total (balanceUnder state.assets symbol) balances) state next := by
  induction balances generalizing state with
  | nil =>
    rw [List.foldlM_nil, pure_ok_iff] at inited
    exact inited ▸ Posted.refl kept state
  | cons balance rest hypothesis =>
    rw [List.foldlM_cons, bind_ok_iff] at inited
    obtain ⟨middle, first, others⟩ := inited
    obtain ⟨head, after, rfl⟩ := initAccountBalance_posted
      (fun keeps => owners keeps balance List.mem_cons_self) first
    refine (head.trans (hypothesis ?_ others)).congr fun _ symbol => (total_cons _ _ _).symm
    exact fun keeps other member => owners keeps other (List.mem_cons_of_mem _ member)

theorem posted_members (state : State) (members : List (Name × Nat)) :
    Posted kept (fun _ => 0) state
      { state with registry := { state.registry with members } } := by
  apply posted_registry
  · exact id
  · exact fun _ _ => id
  · exact fun research member rooted => rooted.researches research member

theorem initResearchGroup_posted {group : GenesisGroup}
    (inited : initResearchGroup state group = .ok next) : Posted kept (fun _ => 0) state next := by
  simp only [initResearchGroup, bind_ok_iff, pure_ok_iff] at inited
  obtain ⟨_, _, creator, got, _, _, created, creates, row, _, rfl⟩ := inited
  obtain ⟨same, known⟩ := State.known_of_get got
  have first : Posted kept (fun _ => 0) state created :=
    createAccountByFaucets_posted (fun _ => .inr (same ▸ known)) creates
  exact (first.trans (posted_members created _)).congr fun _ _ => rfl

theorem initWitness_posted {owner : Name} (inited : initWitness state owner = .ok next) :
    Posted kept (fun _ => 0) state next := by
  simp only [initWitness, bind_ok_iff, pure_ok_iff] at inited
  obtain ⟨_, _, _, _, rfl⟩ := inited
  exact appendWitness_posted rfl

theorem initDiscipline_posted {discipline : GenesisDiscipline}
    (inited : initDiscipline state discipline = .ok next) : Posted kept (fun _ => 0) state next := by
  simp only [initDiscipline, bind_ok_iff, pure_ok_iff] at inited
  obtain ⟨parentId, _, _, _, rfl⟩ := inited
  constructor
  · exact fun sound => { sound with solvent := sound.solvent }
  · exact fun _ _ member _ => member
  · exact fun _ _ => (add_zero _).symm
  · intro _ aspect _ before
    cases aspect with
    | reserved => exact before
    | counted => exact { before with elected := before.elected }
    | rated => exact { before with tokens := before.tokens }
    | rooted => exact { before with balances := before.balances }
    | coreOnly => exact { before with vestings := before.vestings }
    | awarded _ _ => exact before

theorem initAccountExpertise_posted {name : Name}
    (positive : kept .counted ∨ kept .rated → ∀ token ∈ genesis.expertTokens, 0 ≤ token.amount)
    (inited : genesis.initAccountExpertise state name = .ok next) :
    Posted kept (fun _ => 0) state next := by
  refine foldlM_posted (fun discipline state next created => ?_) inited
  refine createExpertToken_posted (fun keeps => ?_) created
  unfold expertiseOf
  cases found : genesis.expertTokens.find? fun token =>
      token.account == name && token.disciplineExternalId == discipline.externalId with
  | none => decide
  | some token => exact positive keeps token (List.mem_of_find?_eq_some found)

theorem initVestingBalances_posted {vestings : List GenesisVesting}
    (inited : vestings.foldlM initVestingBalance state = .ok next) :
    Posted kept (Asset.mk (total GenesisVesting.balance vestings) deipSymbol).under state next := by
  induction vestings generalizing state with
  | nil =>
    rw [List.foldlM_nil, pure_ok_iff] at inited
    subst inited
    refine (Posted.refl kept state).congr fun _ symbol => ?_
    simp [Asset.under]
  | cons vesting rest hypothesis =>
    rw [List.foldlM_cons, bind_ok_iff] at inited
    obtain ⟨middle, first, others⟩ := inited
    simp only [initVestingBalance, bind_ok_iff, pure_ok_iff] at first
    obtain ⟨_, _, _, _, _, _, _, _, _, _, _, _, _, _, rfl⟩ := first
    refine (Posted.trans (posted_vestings (fun symbol => total_append _ _ _) fun before =>
      forall_append_singleton before rfl) (hypothesis others)).congr fun _ symbol => ?_
    simp only [total_cons, total_nil, Asset.under]
    split <;> omega

/-! ## The books of genesis -/

theorem createAccountByFaucets_assets {name creator : Name} {fee : Asset} {isUserAccount : Bool}
    (created : createAccountByFaucets state name creator fee isUserAccount = .ok next) :
    next.assets = state.assets := by
  simp only [createAccountByFaucets, addDefaultBalances, addResearchGroup, addAccount, bind_ok_iff,
    pure_ok_iff] at created
  obtain ⟨_, _, _, _, paid, charged, _, ⟨_, _, rfl⟩, funded, increased, _, ⟨_, _, rfl⟩, _, _, rfl⟩ :=
    created
  obtain ⟨_, _, _, _, rfl⟩ := increaseCommonTokens_effect increased
  unfold payCreationFee at charged
  split at charged
  · simp only [bind_ok_iff, pure_ok_iff] at charged
    obtain ⟨_, _, rfl⟩ := charged
    rfl
  · rw [pure_ok_iff] at charged
    rw [charged]

theorem initAccounts_assets
    (inited : genesis.initAccounts state = .ok next) : next.assets = state.assets := by
  refine foldlM_invariant (fun _ reached => reached.assets = state.assets) ?_ rfl inited
  intro account rest middle next before created
  rw [createAccountByFaucets_assets created, before]

/-- The listed balances of a name count under the symbol of the asset of that name. -/
theorem balanceUnder_eq {assets : List AssetObject} (listed : genesis.AssetsListed assets)
    (symbol : AssetSymbol) (balance : GenesisBalance) :
    balanceUnder assets symbol balance = total (fun asset =>
      if asset.stringSymbol = balance.symbol then
        if asset.symbol = symbol then balance.amount else 0
      else 0) assets := by
  rw [← find?_getD_eq_total listed.names]
  unfold balanceUnder
  cases assets.find? fun asset => asset.stringSymbol == balance.symbol <;> rfl

/-- The balances of genesis hold the supply of every issued asset. -/
theorem total_balanceUnder {assets : List AssetObject} (listed : genesis.AssetsListed assets)
    (symbol : AssetSymbol) :
    total (balanceUnder assets symbol) genesis.accountBalances =
      total (fun asset => if asset.symbol = symbol then genesis.listed asset.stringSymbol else 0)
        assets := by
  rw [total_congr fun balance _ => balanceUnder_eq listed symbol balance, total_comm]
  apply total_congr
  intro asset _
  by_cases same : asset.symbol = symbol
  · rw [if_pos same]
    refine total_congr fun balance _ => ?_
    simp only [same, if_true, eq_comm]
  · rw [if_neg same]
    refine total_eq_zero fun balance _ => ?_
    simp only [same, if_false, ite_self]

/-- What the file has to state for an aspect of the books to hold at the start. -/
def States (genesis : GenesisState) : Aspect → Prop
  | .reserved => 0 ≤ genesis.registrarCommonTokens
  | .counted => ∀ token ∈ genesis.expertTokens, 0 ≤ token.amount
  | .rated => ∀ token ∈ genesis.expertTokens, 0 ≤ token.amount
  | .rooted => ∀ balance ∈ genesis.accountBalances,
      balance.owner = genesis.registrarName ∨ balance.owner ∈ genesis.accounts
  | .coreOnly => True
  | .awarded recipients requests => recipients = [] ∧ requests = []

theorem init_posted (inited : genesis.init = .ok state) :
    ∃ assets, genesis.initAssets = .ok assets ∧
      Posted genesis.States (fun symbol =>
        (Asset.mk genesis.registrarCommonTokens deipSymbol).under symbol +
          total (balanceUnder assets symbol) genesis.accountBalances +
          (Asset.mk (total GenesisVesting.balance genesis.vestingBalances) deipSymbol).under symbol)
        (genesis.blank assets) state := by
  simp only [init, bind_ok_iff] at inited
  obtain ⟨_, _, _, _, assets, initedAssets, _, _, accounts, initedAccounts, balances, initedBalances,
    groups, initedGroups, witnesses, initedWitnesses, disciplines, initedDisciplines, experts,
    initedExperts, researches, initedResearches, initedVestings⟩ := inited
  refine ⟨assets, initedAssets, ?_⟩
  have registrar : Posted genesis.States _ (genesis.blank assets) _ := initRegistrar_posted id
  have creating : Posted genesis.States (fun _ => 0) _ accounts := initAccounts_posted initedAccounts
  have same : accounts.assets = assets := initAccounts_assets initedAccounts
  have known (keeps : genesis.States .rooted) (balance : GenesisBalance)
      (member : balance ∈ genesis.accountBalances) : accounts.Known balance.owner := by
    refine initAccounts_known initedAccounts balance.owner ?_
    rcases keeps balance member with isRegistrar | other
    · refine .inl ?_
      simp [State.Known, initRegistrar, blank, freshAccount, isRegistrar]
    · exact .inr other
  have paying := initAccountBalances_posted known initedBalances
  rw [same] at paying
  have grouping : Posted genesis.States (fun _ => 0) balances groups :=
    foldlM_posted (fun _ _ _ => initResearchGroup_posted) initedGroups
  have electing : Posted genesis.States (fun _ => 0) groups witnesses :=
    foldlM_posted (fun _ _ _ => initWitness_posted) initedWitnesses
  have teaching : Posted genesis.States (fun _ => 0) witnesses disciplines :=
    foldlM_posted (fun _ _ _ => initDiscipline_posted) initedDisciplines
  have rating : Posted genesis.States (fun _ => 0) disciplines experts :=
    foldlM_posted (fun _ _ _ => initAccountExpertise_posted (fun stated => stated.elim id id)) initedExperts
  have researching : Posted genesis.States (fun _ => 0) experts researches :=
    foldlM_posted (fun _ _ _ => CreateResearchOperation.apply_posted) initedResearches
  have assessing := Assessment.apply_posted genesis.States researches genesis.assessment
  have vesting : Posted genesis.States _ _ state := initVestingBalances_posted initedVestings
  refine (((((((((registrar.trans creating).trans paying).trans grouping).trans electing).trans
    teaching).trans rating).trans researching).trans assessing).trans vesting).congr fun _ symbol => ?_
  omega

/-- Genesis brings in what it records as supplied, and the vesting balances. -/
theorem surplus_blank {assets : List AssetObject} (listed : genesis.AssetsListed assets)
    (core : genesis.listed coreName = genesis.initSupply - genesis.registrarCommonTokens)
    (symbol : AssetSymbol) :
    surplus (genesis.blank assets) symbol +
      ((Asset.mk genesis.registrarCommonTokens deipSymbol).under symbol +
        total (balanceUnder assets symbol) genesis.accountBalances) = 0 := by
  rw [total_balanceUnder listed]
  by_cases same : symbol = deipSymbol
  · have single : total (fun asset => if asset.symbol = symbol then
        genesis.listed asset.stringSymbol else 0) assets = genesis.listed coreName := by
      rw [same, ← total_ite_key (genesis.listed coreName) listed.symbols listed.known]
      refine total_congr fun asset member => ?_
      by_cases isCore : asset.symbol = deipSymbol
      · rw [if_pos isCore, if_pos isCore, listed.core asset member isCore]
      · rw [if_neg isCore, if_neg isCore]
    rw [single, core]
    simp only [surplus, held, outstanding, blank, Asset.under, same, if_true, total_nil]
    omega
  · have supplied : total (fun asset => if asset.symbol = symbol then
        genesis.listed asset.stringSymbol else 0) assets =
          total (AssetObject.supplied symbol) assets := by
      refine total_congr fun asset member => ?_
      by_cases hit : asset.symbol = symbol
      · rw [AssetObject.supplied, if_pos hit, if_pos hit,
          listed.supplied asset member (hit ▸ same)]
      · rw [AssetObject.supplied, if_neg hit, if_neg hit]
    rw [supplied]
    simp only [surplus, held, outstanding, blank, Asset.under, same, Ne.symm same, if_false,
      total_nil]
    omega

/-- The books at the start of a chain. -/
theorem init_books (inited : genesis.init = .ok state) :
    Sound state ∧
      (∀ symbol, surplus state symbol =
        (Asset.mk (total GenesisVesting.balance genesis.vestingBalances) deipSymbol).under symbol) ∧
      ∀ aspect, genesis.States aspect → Holds aspect state := by
  obtain ⟨assets, initedAssets, posted⟩ := init_posted inited
  obtain ⟨listed, core⟩ := initAssets_listed initedAssets
  have sound := blank_sound listed
  refine ⟨posted.sound sound, fun symbol => ?_, fun aspect stated => ?_⟩
  · have balanced := surplus_blank listed core symbol
    rw [posted.surplus sound symbol]
    omega
  · refine posted.holds sound aspect stated (blank_holds aspect ?_)
    rintro recipients requests rfl
    exact stated

end GenesisState

end DeipChain.Ledger
