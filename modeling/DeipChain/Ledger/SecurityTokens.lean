import DeipChain.Ledger.Blocks

/-!
# The security tokens of a research

A research keeps its security tokens with their amounts, beside the supplies that the
assets keep themselves. Both are written when an asset is issued or reserved. The tokens
are a set ordered by a comparison of assets, which asserts that the symbols agree.

The operations here are those that create, issue and reserve assets and create the
researches they stand for. `issued` lists the assets that were ever issued.
-/
namespace DeipChain.Ledger

open DeipChain.Result DeipChain.Table

/-- The asset stands for a share of the research. -/
def AssetObject.Tokenizes (asset : AssetObject) (research : Research) : Prop :=
  asset.type = .researchSecurityToken ∧ asset.tokenizedResearch = some research.externalId

/-- Two assets that stand for shares of one research. -/
def AssetObject.Fellow (asset other : AssetObject) : Prop :=
  asset.type = .researchSecurityToken ∧ other.type = .researchSecurityToken ∧
    asset.tokenizedResearch = other.tokenizedResearch

instance (asset other : AssetObject) : Decidable (asset.Fellow other) :=
  inferInstanceAs (Decidable (_ ∧ _ ∧ _))

/-! ## Operations and their checks -/

/-- What `issue_asset_evaluator` checks, with the checks of the balance and of the supply that
    the services make. -/
def IssueAssetOperation.check (state : State) (op : IssueAssetOperation) : Except String Unit := do
  op.validate
  require (state.accountExists op.issuer) "Account ${1} does not exist"
  require (state.accountExists op.recipient) "Account ${1} does not exist"
  let asset ← getAssetBySymbol state.assets op.amount.symbol
  require (op.issuer = asset.issuer) "Account ${1} is not ${2} asset issuer"
  let _ ← adjustAccountBalance state.assets state.balances op.recipient op.amount
  let _ ← adjustAssetCurrentSupply state.assets asset.symbol op.amount.amount

/-- The same of `reserve_asset_evaluator`. -/
def ReserveAssetOperation.check (state : State) (op : ReserveAssetOperation) :
    Except String Unit := do
  op.validate
  require (state.accountExists op.owner) "Account ${1} does not exist"
  require (accountBalanceExists state.balances op.owner op.amount.symbol)
    "Asset ${1} balance does not exist for ${2} account"
  let asset ← getAssetBySymbol state.assets op.amount.symbol
  let _ ← adjustAccountBalance state.assets state.balances op.owner op.amount.neg
  let _ ← adjustAssetCurrentSupply state.assets asset.symbol (-op.amount.amount)

inductive AssetOperation where
  | createResearch (op : CreateResearchOperation)
  | createAsset (op : CreateAssetOperation)
  | transfer (op : TransferOperation)
  | issueAsset (op : IssueAssetOperation)
  | reserveAsset (op : ReserveAssetOperation)

namespace AssetOperation

def apply (state : State) : AssetOperation → Except String State
  | createResearch op => op.apply state
  | createAsset op => do
    op.validate
    op.apply state
  | transfer op => do
    op.validate
    op.apply state
  | issueAsset op => do
    op.validate
    op.apply state
  | reserveAsset op => do
    op.validate
    op.apply state

/-- The checks of an operation. Nothing comes after them in the operations that neither issue
    nor reserve. -/
def check (state : State) : AssetOperation → Except String Unit
  | issueAsset op => op.check state
  | reserveAsset op => op.check state
  | op => do
    let _ ← op.apply state

def issued : AssetOperation → List AssetSymbol
  | issueAsset op => [op.amount.symbol]
  | _ => []

/-- An operation, with the assets that were issued until then. -/
def serve (books : State × List AssetSymbol) (op : AssetOperation) :
    Except String (State × List AssetSymbol) := do
  let next ← op.apply books.1
  return (next, op.issued ++ books.2)

def Checked (books : State × List AssetSymbol) (op : AssetOperation) : Prop :=
  op.check books.1 = .ok ()

/-- No asset is issued for a research that already has another one, unless it is among the
    issued ones itself. -/
def Single (books : State × List AssetSymbol) : AssetOperation → Prop
  | issueAsset op => ∀ asset ∈ books.1.assets, asset.symbol = op.amount.symbol →
      ∀ other ∈ books.1.assets, other.Fellow asset → other.symbol ∈ books.2 →
        asset.symbol ∈ books.2
  | _ => True

end AssetOperation

/-! ## The tally -/

/-- The tokens of a research are the issued assets that stand for it, each with its supply. -/
structure Research.Tallied (assets : List AssetObject) (issued : List AssetSymbol)
    (research : Research) : Prop where
  distinct : (research.securityTokens.map Asset.symbol).Nodup
  tokens : ∀ token, token ∈ research.securityTokens ↔
    ∃ asset ∈ assets, asset.Tokenizes research ∧ asset.symbol ∈ issued ∧
      token = ⟨asset.currentSupply, asset.symbol⟩

def Tallied (books : State × List AssetSymbol) : Prop :=
  ∀ research ∈ books.1.registry.researches, research.Tallied books.1.assets books.2

/-- What the tables of assets and researches always are. -/
structure Catalogued (books : State × List AssetSymbol) : Prop where
  symbols : (books.1.assets.map AssetObject.symbol).Nodup
  researches : (books.1.registry.researches.map Research.externalId).Nodup
  tokenized : ∀ asset ∈ books.1.assets, asset.type = .researchSecurityToken →
    ∃ name ∈ books.1.registry.researches.map Research.externalId,
      asset.tokenizedResearch = some name
  issued : ∀ symbol ∈ books.2, symbol ∈ books.1.assets.map AssetObject.symbol
  unissued : ∀ asset ∈ books.1.assets, asset.type = .researchSecurityToken →
    asset.symbol ∉ books.2 → asset.currentSupply = 0

/-! ## A change of one supply -/

/-- Adds to the supply of an asset. -/
def supplied (assets : List AssetObject) (symbol : AssetSymbol) (delta : Int) : List AssetObject :=
  modifyFirst (fun asset => asset.symbol == symbol)
    (fun asset => { asset with currentSupply := asset.currentSupply + delta }) assets

theorem adjustAssetCurrentSupply_ok {assets after : List AssetObject} {symbol : AssetSymbol}
    {delta : Int} (adjusted : adjustAssetCurrentSupply assets symbol delta = .ok after) :
    ∃ asset, assets.find? (fun asset => asset.symbol == symbol) = some asset ∧
      0 ≤ asset.currentSupply + delta ∧ after = supplied assets symbol delta := by
  simp only [adjustAssetCurrentSupply, getAssetBySymbol, bind_ok_iff, expect_ok_iff,
    require_ok_iff, pure_ok_iff] at adjusted
  obtain ⟨asset, found, _, covered, _, _, rfl⟩ := adjusted
  exact ⟨asset, found, covered, rfl⟩

section Supply

variable {assets : List AssetObject} {issued : List AssetSymbol} {symbol : AssetSymbol}
variable {asset : AssetObject} {delta : Int}

theorem mem_supplied_iff (distinct : (assets.map AssetObject.symbol).Nodup)
    (found : assets.find? (fun asset => asset.symbol == symbol) = some asset)
    {other : AssetObject} :
    other ∈ supplied assets symbol delta ↔ other ∈ assets ∧ other.symbol ≠ symbol ∨
      other = { asset with currentSupply := asset.currentSupply + delta } :=
  mem_modifyFirst_iff distinct found

/-- The tally follows the supply if the tokens of the asset are replaced by the new supply,
    where the asset stands for the research, and all others stay. -/
theorem Research.Tallied.supplied {research : Research} {tokens : List Asset}
    (distinct : (assets.map AssetObject.symbol).Nodup)
    (found : assets.find? (fun asset => asset.symbol == symbol) = some asset)
    (tallied : research.Tallied assets issued) (apart : (tokens.map Asset.symbol).Nodup)
    (written : ∀ token, token ∈ tokens ↔
      token ∈ research.securityTokens ∧ token.symbol ≠ symbol ∨
        asset.Tokenizes research ∧ token = ⟨asset.currentSupply + delta, symbol⟩) :
    { research with securityTokens := tokens }.Tallied (Ledger.supplied assets symbol delta)
      (symbol :: issued) := by
  have key : asset.symbol = symbol := by simpa using List.find?_some found
  refine ⟨apart, fun token => ?_⟩
  rw [written]
  constructor
  · rintro (⟨held, differs⟩ | ⟨stands, rfl⟩)
    · obtain ⟨row, member, stands, known, rfl⟩ := (tallied.tokens token).mp held
      exact ⟨row, (mem_supplied_iff distinct found).mpr (Or.inl ⟨member, differs⟩), stands,
        List.mem_cons_of_mem symbol known, rfl⟩
    · exact ⟨_, (mem_supplied_iff distinct found).mpr (Or.inr rfl), stands, by simp [key],
        by simp [key]⟩
  · rintro ⟨row, member, stands, known, rfl⟩
    rcases (mem_supplied_iff distinct found).mp member with ⟨old, differs⟩ | rfl
    · have before := (List.mem_cons.mp known).resolve_left differs
      exact Or.inl ⟨(tallied.tokens _).mpr ⟨row, old, stands, before, rfl⟩, differs⟩
    · exact Or.inr ⟨stands, by simp [key]⟩

/-- A research that the asset does not stand for has no token of it. -/
theorem Research.Tallied.foreign {research : Research}
    (distinct : (assets.map AssetObject.symbol).Nodup)
    (found : assets.find? (fun asset => asset.symbol == symbol) = some asset)
    (tallied : research.Tallied assets issued) (apart : ¬ asset.Tokenizes research)
    {token : Asset} (held : token ∈ research.securityTokens) : token.symbol ≠ symbol := by
  obtain ⟨row, member, stands, _, rfl⟩ := (tallied.tokens token).mp held
  rintro rfl
  rw [find?_of_nodup distinct member] at found
  exact apart (Option.some.inj found ▸ stands)

/-- A token of the asset itself holds its supply. -/
theorem Research.Tallied.own {research : Research}
    (distinct : (assets.map AssetObject.symbol).Nodup)
    (found : assets.find? (fun asset => asset.symbol == symbol) = some asset)
    (tallied : research.Tallied assets issued) {token : Asset}
    (held : token ∈ research.securityTokens) (same : token.symbol = symbol) :
    token = ⟨asset.currentSupply, symbol⟩ := by
  obtain ⟨row, member, _, _, rfl⟩ := (tallied.tokens token).mp held
  obtain rfl := same
  rw [find?_of_nodup distinct member] at found
  rw [Option.some.inj found]

theorem find?_token_iff (tokens : List Asset) :
    (tokens.any fun token => token.symbol == symbol) = true ↔
      ∃ token, tokens.find? (fun token => token.symbol == symbol) = some token := by
  rw [← Option.isSome_iff_exists, List.find?_isSome, List.any_eq_true]

/-- Where the research has a token of the asset, a change of the token's amount follows a
    change of the supply. -/
theorem Research.Tallied.adjusted {research : Research}
    (distinct : (assets.map AssetObject.symbol).Nodup)
    (found : assets.find? (fun asset => asset.symbol == symbol) = some asset)
    (tallied : research.Tallied assets issued) (stands : asset.Tokenizes research)
    (held : (research.securityTokens.any fun token => token.symbol == symbol) = true) :
    { research with
      securityTokens := modifyFirst (fun token => token.symbol == symbol)
        (fun token => { token with amount := token.amount + delta })
        research.securityTokens }.Tallied (Ledger.supplied assets symbol delta)
      (symbol :: issued) := by
  obtain ⟨own, first⟩ := (find?_token_iff research.securityTokens).mp held
  have same : own.symbol = symbol := by simpa using List.find?_some first
  have worth := tallied.own distinct found (List.mem_of_find?_eq_some first) same
  refine tallied.supplied distinct found ?_ fun token => ?_
  · exact nodup_modifyFirst (fun _ => rfl) tallied.distinct
  · rw [mem_modifyFirst_iff tallied.distinct first, worth]
    simp only [stands, true_and]

/-- The first token of a research, of an asset that had no supply. -/
theorem Research.Tallied.opened {research : Research}
    (distinct : (assets.map AssetObject.symbol).Nodup)
    (found : assets.find? (fun asset => asset.symbol == symbol) = some asset)
    (tallied : research.Tallied assets issued) (stands : asset.Tokenizes research)
    (empty : research.securityTokens = []) (fresh : asset.currentSupply = 0) :
    { research with securityTokens := [⟨delta, symbol⟩] }.Tallied
      (Ledger.supplied assets symbol delta) (symbol :: issued) := by
  refine tallied.supplied distinct found (List.nodup_singleton _) fun token => ?_
  simp [empty, stands, fresh]

end Supply

/-! ## Issuing and reserving -/

section Changes

variable {state : State} {issued : List AssetSymbol} {symbol : AssetSymbol}
variable {asset : AssetObject} {delta : Int}

/-- The research that an asset stands for. -/
theorem Catalogued.research (catalogued : Catalogued (state, issued)) (member : asset ∈ state.assets)
    (token : asset.type = .researchSecurityToken) :
    ∃ research ∈ state.registry.researches, asset.Tokenizes research ∧
      state.registry.researches.find? (fun other => other.externalId == research.externalId) =
        some research := by
  obtain ⟨name, known, stands⟩ := catalogued.tokenized asset member token
  obtain ⟨research, listed, rfl⟩ := List.mem_map.mp known
  exact ⟨research, listed, ⟨token, stands⟩, find?_of_nodup catalogued.researches listed⟩

/-- The change reaches the research of the asset, and no other one. -/
theorem updateTokenizedResearch_eq {registry : Registry} {research : Research}
    {change : Research → Except String Research} (stands : asset.Tokenizes research)
    (found : registry.researches.find? (fun other => other.externalId == research.externalId) =
      some research) :
    updateTokenizedResearch registry asset change = (change research >>= fun changed =>
      pure { registry with
        researches := modifyFirst (fun other => other.externalId == research.externalId)
          (fun other => { other with securityTokens := changed.securityTokens })
          registry.researches }) := by
  rw [updateTokenizedResearch, stands.1, stands.2]
  simp only [expect, found, bind, Except.bind]

theorem updateTokenizedResearch_basic {registry : Registry}
    {change : Research → Except String Research} (basic : asset.type ≠ .researchSecurityToken) :
    updateTokenizedResearch registry asset change = .ok registry := by
  rw [updateTokenizedResearch]
  cases kind : asset.type with
  | basic => rfl
  | researchSecurityToken => exact absurd kind basic

/-- The tally of all researches, from what the change does to the one of the asset. -/
theorem updateTokenizedResearch_tallied {registry : Registry}
    {change : Research → Except String Research} (catalogued : Catalogued (state, issued))
    (tallied : Tallied (state, issued))
    (found : state.assets.find? (fun asset => asset.symbol == symbol) = some asset)
    (changes : ∀ research ∈ state.registry.researches, asset.Tokenizes research →
      ∀ changed, change research = .ok changed →
        { research with securityTokens := changed.securityTokens }.Tallied
          (supplied state.assets symbol delta) (symbol :: issued))
    (updated : updateTokenizedResearch state.registry asset change = .ok registry) :
    (∀ research ∈ registry.researches,
        research.Tallied (supplied state.assets symbol delta) (symbol :: issued)) ∧
      registry.researches.map Research.externalId =
        state.registry.researches.map Research.externalId := by
  have untouched : ∀ research ∈ state.registry.researches, ¬ asset.Tokenizes research →
      research.Tallied (supplied state.assets symbol delta) (symbol :: issued) := by
    intro research listed apart
    refine (tallied research listed).supplied catalogued.symbols found
      (tallied research listed).distinct fun token => ?_
    constructor
    · intro held
      exact Or.inl ⟨held, (tallied research listed).foreign catalogued.symbols found apart held⟩
    · rintro (⟨held, _⟩ | ⟨stands, _⟩)
      · exact held
      · exact absurd stands apart
  by_cases token : asset.type = .researchSecurityToken
  · obtain ⟨research, listed, stands, first⟩ :=
      catalogued.research (List.mem_of_find?_eq_some found) token
    rw [updateTokenizedResearch_eq stands first, bind_ok_iff] at updated
    obtain ⟨changed, wrote, equal⟩ := updated
    obtain rfl := pure_ok_iff.mp equal
    refine ⟨fun other member => ?_, map_modifyFirst fun _ => rfl⟩
    rcases (mem_modifyFirst_iff catalogued.researches first).mp member with ⟨old, differs⟩ | rfl
    · refine untouched other old fun also => differs ?_
      exact Option.some.inj (also.2.symm.trans stands.2)
    · exact changes research listed stands changed wrote
  · rw [updateTokenizedResearch_basic token] at updated
    obtain rfl := Except.ok.inj updated
    exact ⟨fun other member => untouched other member fun stands => token stands.1, rfl⟩

/-- The tables stay what they are when a supply changes. -/
theorem Catalogued.supplied {next : State} (catalogued : Catalogued (state, issued))
    (found : state.assets.find? (fun asset => asset.symbol == symbol) = some asset)
    (assets : next.assets = Ledger.supplied state.assets symbol delta)
    (names : next.registry.researches.map Research.externalId =
      state.registry.researches.map Research.externalId) :
    Catalogued (next, symbol :: issued) := by
  have key : asset.symbol = symbol := by simpa using List.find?_some found
  have symbols : next.assets.map AssetObject.symbol = state.assets.map AssetObject.symbol := by
    rw [assets]
    exact map_modifyFirst fun _ => rfl
  constructor
  · rw [symbols]
    exact catalogued.symbols
  · rw [names]
    exact catalogued.researches
  · rw [names, assets]
    exact forall_modifyFirst catalogued.tokenized fun _ _ kept => kept
  · rw [symbols]
    refine List.forall_mem_cons.mpr ⟨?_, catalogued.issued⟩
    exact key ▸ List.mem_map_of_mem (List.mem_of_find?_eq_some found)
  · intro row member token unknown
    rw [assets] at member
    rcases (mem_supplied_iff catalogued.symbols found).mp member with ⟨old, differs⟩ | rfl
    · exact catalogued.unissued row old token fun known => unknown (List.mem_cons_of_mem _ known)
    · exact absurd (List.mem_cons.mpr (Or.inl key)) unknown

/-- A research has a token of an asset that stands for it once the asset was issued. -/
theorem Research.Tallied.any_iff {research : Research}
    (tallied : research.Tallied state.assets issued)
    (found : state.assets.find? (fun asset => asset.symbol == symbol) = some asset)
    (stands : asset.Tokenizes research) :
    (research.securityTokens.any fun token => token.symbol == symbol) = true ↔ symbol ∈ issued := by
  have key : asset.symbol = symbol := by simpa using List.find?_some found
  rw [List.any_eq_true]
  constructor
  · rintro ⟨token, held, same⟩
    obtain ⟨row, _, _, known, rfl⟩ := (tallied.tokens token).mp held
    exact beq_iff_eq.mp same ▸ known
  · intro known
    refine ⟨⟨asset.currentSupply, asset.symbol⟩, (tallied.tokens _).mpr ?_, beq_iff_eq.mpr key⟩
    exact ⟨asset, List.mem_of_find?_eq_some found, stands, key ▸ known, rfl⟩

/-- A token can be added where the research has one of the asset or none at all. -/
theorem addSecurityTokens_ok_iff {amount : Asset} {research : Research} :
    (∃ changed, addSecurityTokens amount research = .ok changed) ↔
      (research.securityTokens.any fun token => token.symbol == amount.symbol) = true ∨
        research.securityTokens = [] := by
  rw [addSecurityTokens]
  split
  · rename_i held
    exact ⟨fun _ => Or.inl held, fun _ => ⟨_, rfl⟩⟩
  · rename_i absent
    simp only [bind_ok_iff, require_ok_iff, absent, Bool.false_eq_true, false_or]
    constructor
    · rintro ⟨_, _, empty, _⟩
      exact empty
    · intro empty
      exact ⟨_, (), empty, rfl⟩

theorem addSecurityTokens_tallied {amount : Asset} {research changed : Research}
    (catalogued : Catalogued (state, issued)) (tallied : research.Tallied state.assets issued)
    (found : state.assets.find? (fun asset => asset.symbol == amount.symbol) = some asset)
    (stands : asset.Tokenizes research) (added : addSecurityTokens amount research = .ok changed) :
    { research with securityTokens := changed.securityTokens }.Tallied
      (supplied state.assets amount.symbol amount.amount) (amount.symbol :: issued) := by
  have key : asset.symbol = amount.symbol := by simpa using List.find?_some found
  rw [addSecurityTokens] at added
  split at added
  · rename_i held
    obtain rfl := pure_ok_iff.mp added
    exact tallied.adjusted catalogued.symbols found stands held
  · rename_i absent
    simp only [bind_ok_iff, require_ok_iff, pure_ok_iff] at added
    obtain ⟨_, empty, rfl⟩ := added
    -- an asset without a token here was never issued
    have unknown : asset.symbol ∉ issued := by
      rw [key]
      exact fun known => absent ((tallied.any_iff found stands).mpr known)
    have fresh := catalogued.unissued asset (List.mem_of_find?_eq_some found) stands.1 unknown
    exact tallied.opened catalogued.symbols found stands empty fresh

theorem removeSecurityTokens_tallied {amount : Asset} {research changed : Research}
    (catalogued : Catalogued (state, issued)) (tallied : research.Tallied state.assets issued)
    (found : state.assets.find? (fun asset => asset.symbol == amount.symbol) = some asset)
    (stands : asset.Tokenizes research) (known : amount.symbol ∈ issued)
    (removed : removeSecurityTokens amount research = .ok changed) :
    { research with securityTokens := changed.securityTokens }.Tallied
      (supplied state.assets amount.symbol (-amount.amount)) (amount.symbol :: issued) := by
  obtain rfl := pure_ok_iff.mp removed
  have held := (tallied.any_iff found stands).mpr known
  exact tallied.adjusted catalogued.symbols found stands held

/-- An issued asset need not be listed again, and one that stands for no research need not be
    listed at all. -/
theorem Research.Tallied.unlisted {assets : List AssetObject} {research : Research}
    (tallied : research.Tallied assets (symbol :: issued))
    (known : ∀ row ∈ assets, row.type = .researchSecurityToken → row.symbol = symbol →
      symbol ∈ issued) : research.Tallied assets issued := by
  refine ⟨tallied.distinct, fun token => (tallied.tokens token).trans ?_⟩
  constructor
  · rintro ⟨row, member, stands, listed, rfl⟩
    refine ⟨row, member, stands, ?_, rfl⟩
    rcases List.mem_cons.mp listed with same | earlier
    · exact same ▸ known row member stands.1 same
    · exact earlier
  · rintro ⟨row, member, stands, earlier, rfl⟩
    exact ⟨row, member, stands, List.mem_cons_of_mem symbol earlier, rfl⟩

theorem Catalogued.unlisted (catalogued : Catalogued (state, symbol :: issued))
    (known : ∀ row ∈ state.assets, row.type = .researchSecurityToken → row.symbol = symbol →
      symbol ∈ issued) : Catalogued (state, issued) where
  symbols := catalogued.symbols
  researches := catalogued.researches
  tokenized := catalogued.tokenized
  issued other earlier := catalogued.issued other (List.mem_cons_of_mem symbol earlier)
  unissued row member token unknown := by
    refine catalogued.unissued row member token fun listed => unknown ?_
    rcases List.mem_cons.mp listed with same | earlier
    · exact same ▸ known row member token same
    · exact earlier

end Changes

/-! ## One operation -/

section Operations

variable {state next : State} {issued : List AssetSymbol}

/-- What is left of an issue after its checks. -/
theorem IssueAssetOperation.apply_checked {op : IssueAssetOperation}
    (checked : op.check state = .ok ()) :
    ∃ asset balances,
      state.assets.find? (fun asset => asset.symbol == op.amount.symbol) = some asset ∧
      AssetOperation.apply state (.issueAsset op) =
        (updateTokenizedResearch state.registry asset (addSecurityTokens op.amount) >>=
          fun registry => pure { state with
            balances := balances
            assets := supplied state.assets op.amount.symbol op.amount.amount
            registry := registry }) := by
  simp only [check, bind_ok_iff, require_ok_iff] at checked
  obtain ⟨_, valid, _, issuer, _, recipient, asset, listed, _, owned, balances, credited, assets,
    adjusted, _⟩ := checked
  have found := expect_ok_iff.mp listed
  have key : asset.symbol = op.amount.symbol := by simpa using List.find?_some found
  obtain ⟨_, _, _, rfl⟩ := adjustAssetCurrentSupply_ok adjusted
  refine ⟨asset, balances, found, ?_⟩
  rw [key] at adjusted
  rw [owned] at issuer
  simp only [AssetOperation.apply, valid, apply, require, issuer, recipient, owned, listed, if_true,
    issueAsset, credited, key, adjusted, bind, Except.bind]

/-- The same of a reserve, which needs a supply. -/
theorem ReserveAssetOperation.apply_checked {op : ReserveAssetOperation}
    (checked : op.check state = .ok ()) :
    ∃ asset balances,
      state.assets.find? (fun asset => asset.symbol == op.amount.symbol) = some asset ∧
      0 < asset.currentSupply ∧
      AssetOperation.apply state (.reserveAsset op) =
        (updateTokenizedResearch state.registry asset (removeSecurityTokens op.amount) >>=
          fun registry => pure { state with
            balances := balances
            assets := supplied state.assets op.amount.symbol (-op.amount.amount)
            registry := registry }) := by
  simp only [check, bind_ok_iff, require_ok_iff] at checked
  obtain ⟨_, valid, _, owner, _, funded, asset, listed, balances, debited, assets, adjusted, _⟩ :=
    checked
  have found := expect_ok_iff.mp listed
  have key : asset.symbol = op.amount.symbol := by simpa using List.find?_some found
  obtain ⟨row, first, covered, rfl⟩ := adjustAssetCurrentSupply_ok adjusted
  rw [key, found, Option.some.injEq] at first
  subst first
  have positive : 0 < op.amount.amount := by
    simp only [validate, bind_ok_iff, require_ok_iff] at valid
    obtain ⟨_, _, positive⟩ := valid
    exact positive
  refine ⟨asset, balances, found, by omega, ?_⟩
  rw [key] at adjusted
  simp only [AssetOperation.apply, valid, apply, require, owner, funded, listed, if_true,
    reserveAsset, debited, key, adjusted, bind, Except.bind]

/-- With the tally kept, an asset can join the tokens of its research exactly if no other one
    did before. -/
theorem single_iff {op : IssueAssetOperation} {asset : AssetObject} {research : Research}
    (catalogued : Catalogued (state, issued)) (tallied : research.Tallied state.assets issued)
    (found : state.assets.find? (fun asset => asset.symbol == op.amount.symbol) = some asset)
    (stands : asset.Tokenizes research) :
    AssetOperation.Single (state, issued) (.issueAsset op) ↔
      ∃ changed, addSecurityTokens op.amount research = .ok changed := by
  have key : asset.symbol = op.amount.symbol := by simpa using List.find?_some found
  have member := List.mem_of_find?_eq_some found
  rw [addSecurityTokens_ok_iff, tallied.any_iff found stands]
  constructor
  · intro single
    by_cases known : op.amount.symbol ∈ issued
    · exact Or.inl known
    · refine Or.inr (List.eq_nil_iff_forall_not_mem.mpr fun token held => known ?_)
      obtain ⟨other, listed, also, earlier, _⟩ := (tallied.tokens token).mp held
      exact key ▸ single asset member key other listed
        ⟨also.1, stands.1, also.2.trans stands.2.symm⟩ earlier
  · rintro (known | empty) row listed same other others fellow earlier
    · exact same ▸ known
    · have equal : row = asset := by
        refine List.inj_on_of_nodup_map catalogued.symbols listed member ?_
        exact same.trans key.symm
      subst equal
      have held := (tallied.tokens ⟨other.currentSupply, other.symbol⟩).mpr
        ⟨other, others, ⟨fellow.1, fellow.2.2.trans stands.2⟩, earlier, rfl⟩
      rw [empty] at held
      exact absurd held List.not_mem_nil

/-- An issue that passes its checks succeeds exactly if no other asset of the research was
    issued, and then the tally is kept. -/
theorem issueAsset_round {op : IssueAssetOperation} (catalogued : Catalogued (state, issued))
    (tallied : Tallied (state, issued)) (checked : op.check state = .ok ()) :
    (AssetOperation.Single (state, issued) (.issueAsset op) ↔
        ∃ next, AssetOperation.apply state (.issueAsset op) = .ok next) ∧
      ∀ next, AssetOperation.apply state (.issueAsset op) = .ok next →
        Catalogued (next, op.amount.symbol :: issued) ∧
          Tallied (next, op.amount.symbol :: issued) := by
  obtain ⟨asset, balances, found, applied⟩ := op.apply_checked checked
  have key : asset.symbol = op.amount.symbol := by simpa using List.find?_some found
  rw [applied]
  constructor
  · by_cases token : asset.type = .researchSecurityToken
    · obtain ⟨research, listed, stands, first⟩ :=
        catalogued.research (List.mem_of_find?_eq_some found) token
      rw [single_iff catalogued (tallied research listed) found stands,
        updateTokenizedResearch_eq stands first]
      cases addSecurityTokens op.amount research with
      | error error => simp [bind, Except.bind]
      | ok changed => simp [bind, Except.bind, pure, Except.pure]
    · rw [updateTokenizedResearch_basic token]
      refine iff_of_true ?_ ⟨_, rfl⟩
      intro row listed same other _ fellow _
      rw [List.inj_on_of_nodup_map catalogued.symbols listed (List.mem_of_find?_eq_some found)
        (same.trans key.symm)] at fellow
      exact absurd fellow.2.1 token
  · intro next ran
    obtain ⟨registry, updated, equal⟩ := bind_ok_iff.mp ran
    obtain rfl := pure_ok_iff.mp equal
    obtain ⟨tokens, names⟩ := updateTokenizedResearch_tallied catalogued tallied found
      (fun research listed stands changed added =>
        addSecurityTokens_tallied catalogued (tallied research listed) found stands added) updated
    exact ⟨catalogued.supplied found rfl names, tokens⟩

/-- A reserve that passes its checks succeeds and keeps the tally. -/
theorem reserveAsset_round {op : ReserveAssetOperation} (catalogued : Catalogued (state, issued))
    (tallied : Tallied (state, issued)) (checked : op.check state = .ok ()) :
    (∃ next, AssetOperation.apply state (.reserveAsset op) = .ok next) ∧
      ∀ next, AssetOperation.apply state (.reserveAsset op) = .ok next →
        Catalogued (next, issued) ∧ Tallied (next, issued) := by
  obtain ⟨asset, balances, found, positive, applied⟩ := op.apply_checked checked
  -- what has a supply was issued
  have reserved : asset.type = .researchSecurityToken → op.amount.symbol ∈ issued := by
    intro token
    by_contra unknown
    have key : asset.symbol = op.amount.symbol := by simpa using List.find?_some found
    have none := catalogued.unissued asset (List.mem_of_find?_eq_some found) token (key ▸ unknown)
    omega
  rw [applied]
  have changes : ∀ research ∈ state.registry.researches, asset.Tokenizes research →
      ∀ changed, removeSecurityTokens op.amount research = .ok changed →
        { research with securityTokens := changed.securityTokens }.Tallied
          (supplied state.assets op.amount.symbol (-op.amount.amount))
          (op.amount.symbol :: issued) := by
    intro research listed stands changed removed
    exact removeSecurityTokens_tallied catalogued (tallied research listed) found stands
      (reserved stands.1) removed
  constructor
  · by_cases token : asset.type = .researchSecurityToken
    · obtain ⟨research, listed, stands, first⟩ :=
        catalogued.research (List.mem_of_find?_eq_some found) token
      rw [updateTokenizedResearch_eq stands first]
      exact ⟨_, rfl⟩
    · rw [updateTokenizedResearch_basic token]
      exact ⟨_, rfl⟩
  · intro next ran
    obtain ⟨registry, updated, equal⟩ := bind_ok_iff.mp ran
    obtain rfl := pure_ok_iff.mp equal
    obtain ⟨tokens, names⟩ := updateTokenizedResearch_tallied catalogued tallied found changes updated
    have known : ∀ row ∈ supplied state.assets op.amount.symbol (-op.amount.amount),
        row.type = .researchSecurityToken → row.symbol = op.amount.symbol →
          op.amount.symbol ∈ issued := by
      intro row member token same
      rcases (mem_supplied_iff catalogued.symbols found).mp member with ⟨_, differs⟩ | rfl
      · exact absurd same differs
      · exact reserved token
    exact ⟨(catalogued.supplied found rfl names).unlisted known,
      fun research listed => (tokens research listed).unlisted known⟩

end Operations

/-! ## Runs -/

section Runs

variable {books after : State × List AssetSymbol} {state next : State}
variable {issued : List AssetSymbol}

/-- A new research has no tokens, and no asset stands for it yet. -/
theorem createResearch_kept {op : CreateResearchOperation} (catalogued : Catalogued (state, issued))
    (tallied : Tallied (state, issued)) (ran : op.apply state = .ok next) :
    Catalogued (next, issued) ∧ Tallied (next, issued) := by
  simp only [CreateResearchOperation.apply, bind_ok_iff, require_ok_iff, pure_ok_iff] at ran
  obtain ⟨_, _, group, _, _, fresh, rfl⟩ := ran
  constructor
  · constructor
    · exact catalogued.symbols
    · exact nodup_append_fresh catalogued.researches fresh
    · intro asset member token
      obtain ⟨name, known, stands⟩ := catalogued.tokenized asset member token
      refine ⟨name, ?_, stands⟩
      rw [List.map_append]
      exact List.mem_append_left _ known
    · exact catalogued.issued
    · exact catalogued.unissued
  · refine forall_append_singleton tallied ⟨List.nodup_nil, fun token => ?_⟩
    refine iff_of_false List.not_mem_nil ?_
    rintro ⟨asset, member, stands, _⟩
    obtain ⟨name, known, also⟩ := catalogued.tokenized asset member stands.1
    obtain ⟨research, listed, rfl⟩ := List.mem_map.mp known
    exact fresh research listed (Option.some.inj (also.symm.trans stands.2))

/-- A trait names a research of the registry. -/
theorem readTrait_known {read after : Option Name × Option Percent} {asset : AssetTrait}
    (known : ∀ name, read.1 = some name →
      name ∈ state.registry.researches.map Research.externalId)
    (ran : CreateAssetOperation.readTrait state read asset = .ok after) :
    ∀ name, after.1 = some name → name ∈ state.registry.researches.map Research.externalId := by
  cases asset with
  | researchSecurityToken externalId researchGroup =>
    simp only [CreateAssetOperation.readTrait, State.getResearch, bind_ok_iff, require_ok_iff,
      pure_ok_iff, expect_ok_iff] at ran
    obtain ⟨research, found, _, _, _, _, rfl⟩ := ran
    intro name same
    rw [← Option.some.inj same]
    exact List.mem_map_of_mem (List.mem_of_find?_eq_some found)
  | researchLicenseRevenue share =>
    obtain rfl := pure_ok_iff.mp ran
    exact known

/-- A new asset has no supply and was not issued. -/
theorem createAsset_kept {op : CreateAssetOperation} (catalogued : Catalogued (state, issued))
    (tallied : Tallied (state, issued)) (ran : op.apply state = .ok next) :
    Catalogued (next, issued) ∧ Tallied (next, issued) := by
  simp only [CreateAssetOperation.apply, createAsset, bind_ok_iff, require_ok_iff,
    pure_ok_iff] at ran
  obtain ⟨_, _, _, _, read, traits, assets, ⟨_, _, _, unique, rfl⟩, rfl⟩ := ran
  have known := foldlM_invariant
    (fun _ read => ∀ name, read.1 = some name →
      name ∈ state.registry.researches.map Research.externalId)
    (fun _ _ _ _ known ran => readTrait_known known ran) (by simp) traits
  have fresh : op.symbol ∉ issued := by
    intro listed
    obtain ⟨row, member, same⟩ := List.mem_map.mp (catalogued.issued op.symbol listed)
    exact (unique row member).1 same
  constructor
  · constructor
    · exact nodup_append_fresh catalogued.symbols fun row member => (unique row member).1
    · exact catalogued.researches
    · refine forall_append_singleton catalogued.tokenized ?_
      intro token
      cases stands : read.1 with
      | none => simp [stands] at token
      | some name => exact ⟨name, known name stands, rfl⟩
    · intro symbol listed
      rw [List.map_append]
      exact List.mem_append_left _ (catalogued.issued symbol listed)
    · exact forall_append_singleton catalogued.unissued fun _ _ => rfl
  · intro research listed
    refine ⟨(tallied research listed).distinct, fun token => ?_⟩
    rw [(tallied research listed).tokens token]
    constructor
    · rintro ⟨row, member, stands⟩
      exact ⟨row, List.mem_append_left _ member, stands⟩
    · rintro ⟨row, member, stands, earlier, equal⟩
      rcases List.mem_append.mp member with old | new
      · exact ⟨row, old, stands, earlier, equal⟩
      · rw [List.mem_singleton.mp new] at earlier
        exact absurd earlier fresh

namespace AssetOperation

/-- An operation that passes its checks succeeds exactly if it issues no second asset of a
    research, and then it keeps the tally. -/
theorem serve_round {op : AssetOperation} (catalogued : Catalogued books) (tallied : Tallied books)
    (checked : op.Checked books) :
    (op.Single books ↔ ∃ after, serve books op = .ok after) ∧
      ∀ after, serve books op = .ok after → Catalogued after ∧ Tallied after := by
  obtain ⟨state, issued⟩ := books
  simp only [serve, bind_ok_iff, pure_ok_iff]
  -- an operation whose checks are all it does
  have plain : ∀ next, op.apply state = .ok next → op.issued = [] → op.Single (state, issued) →
      Catalogued (next, issued) ∧ Tallied (next, issued) →
      (op.Single (state, issued) ↔ ∃ after next, op.apply state = .ok next ∧
          (next, op.issued ++ issued) = after) ∧
        ∀ after, (∃ next, op.apply state = .ok next ∧ (next, op.issued ++ issued) = after) →
          Catalogued after ∧ Tallied after := by
    intro next ran none single kept
    refine ⟨iff_of_true single ⟨_, next, ran, rfl⟩, ?_⟩
    rintro after ⟨other, also, rfl⟩
    obtain rfl := Except.ok.inj (ran.symm.trans also)
    rw [none]
    exact kept
  cases op with
  | createResearch op =>
    obtain ⟨next, ran, _⟩ := bind_ok_iff.mp checked
    exact plain next ran rfl trivial (createResearch_kept catalogued tallied ran)
  | createAsset op =>
    obtain ⟨next, ran, _⟩ := bind_ok_iff.mp checked
    obtain ⟨_, _, applied⟩ := bind_ok_iff.mp ran
    exact plain next ran rfl trivial (createAsset_kept catalogued tallied applied)
  | transfer op =>
    obtain ⟨next, ran, _⟩ := bind_ok_iff.mp checked
    obtain ⟨_, _, applied⟩ := bind_ok_iff.mp ran
    simp only [TransferOperation.apply, bind_ok_iff, pure_ok_iff] at applied
    obtain ⟨_, _, _, _, _, _, _, _, _, _, _, _, _, _, _, _, rfl⟩ := applied
    exact plain _ ran rfl trivial
      ⟨⟨catalogued.symbols, catalogued.researches, catalogued.tokenized, catalogued.issued,
        catalogued.unissued⟩, tallied⟩
  | issueAsset op =>
    obtain ⟨succeeds, kept⟩ := issueAsset_round catalogued tallied checked
    constructor
    · rw [succeeds]
      constructor
      · rintro ⟨next, ran⟩
        exact ⟨_, next, ran, rfl⟩
      · rintro ⟨_, next, ran, _⟩
        exact ⟨next, ran⟩
    · rintro after ⟨next, ran, rfl⟩
      exact kept next ran
  | reserveAsset op =>
    obtain ⟨⟨next, ran⟩, kept⟩ := reserveAsset_round catalogued tallied checked
    exact plain next ran rfl trivial (kept next ran)

/-- In a run whose operations pass their checks, all succeed and the tokens of every research
    are the issued assets with their supplies exactly if no research has two of them. -/
theorem serve_tallied_iff {start : State × List AssetSymbol} {operations : List AssetOperation}
    (catalogued : Catalogued start) (tallied : Tallied start)
    (checked : Along serve (fun books op => op.Checked books) start operations) :
    (∃ final, operations.foldlM serve start = .ok final ∧ Tallied final) ↔
      Along serve (fun books op => op.Single books) start operations := by
  induction operations generalizing start with
  | nil => exact ⟨fun _ => trivial, fun _ => ⟨start, rfl, tallied⟩⟩
  | cons op rest hypothesis =>
    obtain ⟨passes, later⟩ := checked
    obtain ⟨succeeds, kept⟩ := serve_round catalogued tallied passes
    constructor
    · rintro ⟨final, ran, last⟩
      rw [List.foldlM_cons, bind_ok_iff] at ran
      obtain ⟨next, stepped, remaining⟩ := ran
      refine ⟨succeeds.mpr ⟨next, stepped⟩, fun other also => ?_⟩
      obtain rfl := Except.ok.inj (stepped.symm.trans also)
      obtain ⟨catalogued, tallied⟩ := kept next stepped
      exact (hypothesis catalogued tallied (later next stepped)).mp ⟨final, remaining, last⟩
    · rintro ⟨single, others⟩
      obtain ⟨next, stepped⟩ := succeeds.mp single
      obtain ⟨catalogued, tallied⟩ := kept next stepped
      obtain ⟨final, remaining, last⟩ :=
        (hypothesis catalogued tallied (later next stepped)).mpr (others next stepped)
      refine ⟨final, ?_, last⟩
      rw [List.foldlM_cons, stepped]
      exact remaining

end AssetOperation

end Runs

/-! ## Two assets of one research -/

namespace Sample

/-- A research group without researches. -/
def laboratory : State :=
  { genesis.blank [] with
    accounts := [freshAccount 0 "lab", freshAccount 1 "alice"]
    groups := [⟨0, "lab", "alice", ⟨0, deipSymbol⟩⟩] }

/-- The group starts a research and creates two assets for it. -/
def founding : List AssetOperation :=
  [.createResearch ⟨"lens", "lab"⟩,
    .createAsset ⟨"lab", 3, "FIRST", 1000, [.researchSecurityToken "lens" "lab"]⟩,
    .createAsset ⟨"lab", 259, "SECOND", 1000, [.researchSecurityToken "lens" "lab"]⟩]

/-- It issues the first asset twice, and some of it is reserved. -/
def trading : List AssetOperation :=
  founding ++ [.issueAsset ⟨"lab", ⟨70, 3⟩, "alice"⟩, .issueAsset ⟨"lab", ⟨30, 3⟩, "lab"⟩,
    .transfer ⟨"alice", "lab", ⟨10, 3⟩⟩, .reserveAsset ⟨"lab", ⟨40, 3⟩⟩]

/-- Then it issues the second asset. -/
def doubling : List AssetOperation :=
  trading ++ [.issueAsset ⟨"lab", ⟨50, 259⟩, "alice"⟩]

theorem laboratory_catalogued : Catalogued (laboratory, []) := by
  constructor <;> simp [laboratory, genesis, GenesisState.blank]

theorem laboratory_tallied : Tallied (laboratory, []) := by
  simp [Tallied, laboratory, genesis, GenesisState.blank]

/-- The checks of an operation, as a test. -/
def checks (books : State × List AssetSymbol) (op : AssetOperation) : Bool :=
  (op.check books.1).isOk

theorem checked_of_checks {operations : List AssetOperation}
    (tested : passes AssetOperation.serve checks (laboratory, []) operations = true) :
    Along AssetOperation.serve (fun books op => op.Checked books) (laboratory, []) operations := by
  refine Along.of_passes (fun books op passed => ?_) tested
  obtain ⟨⟨⟩, checked⟩ := exists_ok _ passed
  exact checked

/-- One asset of a research is tallied. -/
theorem trading_tallied :
    (∃ final, trading.foldlM AssetOperation.serve (laboratory, []) = .ok final ∧ Tallied final) ↔
      Along AssetOperation.serve (fun books op => op.Single books) (laboratory, []) trading :=
  AssetOperation.serve_tallied_iff laboratory_catalogued laboratory_tallied
    (checked_of_checks (by decide +kernel))

/-- All operations pass the checks of balances and supplies, and yet the second asset cannot be
    issued. -/
theorem doubling_fails :
    Along AssetOperation.serve (fun books op => op.Checked books) (laboratory, []) doubling ∧
      ¬ ∃ final, doubling.foldlM AssetOperation.serve (laboratory, []) = .ok final := by
  refine ⟨checked_of_checks (by decide +kernel), ?_⟩
  rintro ⟨final, ran⟩
  have failed : (doubling.foldlM AssetOperation.serve (laboratory, [])).isOk = false := by
    decide +kernel
  rw [ran] at failed
  cases failed

end Sample

end DeipChain.Ledger
