import DeipChain.Ledger.Books

/-!
# Payments, supplies and votes in the books

What the evaluators for assets, transfers, common tokens and votes do to the books.
A transfer and a locking of core tokens move what is there. Issuing an asset brings
it into the ledger and into the recorded supply at once, and reserving takes it out
of both.
-/
namespace DeipChain.Ledger

open DeipChain.Result DeipChain.Table

variable {kept : Aspect → Prop} {state next : State}

theorem State.known_of_exists {name : Name} (exists_ : state.accountExists name = true) :
    state.Known name := by
  obtain ⟨account, member, same⟩ := List.any_eq_true.mp exists_
  exact List.mem_map.mpr ⟨account, member, by simpa using same⟩

theorem State.known_of_get {name : Name} {account : Account}
    (got : state.getAccount name = .ok account) : account.name = name ∧ state.Known name := by
  have found := expect_ok_iff.mp got
  have same : account.name = name := by simpa using List.find?_some found
  exact ⟨same, List.mem_map.mpr ⟨account, List.mem_of_find?_eq_some found, same⟩⟩

/-- A payment to a known owner, or out of a balance. -/
theorem adjustAccountBalance_posted (kept : Aspect → Prop) (state : State) {balances : List Balance} {owner : Name} {delta : Asset}
    (owned : grounds state owner delta.symbol ∨ delta.amount < 0)
    (adjusted : adjustAccountBalance state.assets state.balances owner delta = .ok balances) :
    Posted kept delta.under state { state with balances } :=
  (adjustAccountBalance_moved (grounds state) owned adjusted).posted

/-! ## Supplies of assets -/

/-- What an amount counts for among the issued assets, which the core asset is not. -/
def Asset.issued (asset : Asset) (symbol : AssetSymbol) : Int :=
  if symbol = deipSymbol then 0 else asset.under symbol

theorem Asset.issued_of_ne {asset : Asset} (issuable : asset.symbol ≠ deipSymbol)
    (symbol : AssetSymbol) : asset.issued symbol = asset.under symbol := by
  unfold issued under
  split <;> simp_all

theorem getAssetBySymbol_symbol {assets : List AssetObject} {symbol : AssetSymbol}
    {asset : AssetObject} (got : getAssetBySymbol assets symbol = .ok asset) :
    asset.symbol = symbol ∧ asset ∈ assets := by
  have found := expect_ok_iff.mp got
  exact ⟨by simpa using List.find?_some found, List.mem_of_find?_eq_some found⟩

theorem AssetsKept.modify {assets : List AssetObject} {key : AssetObject → Bool}
    {change : AssetObject → AssetObject} (before : AssetsKept assets)
    (sameSymbol : ∀ asset, (change asset).symbol = asset.symbol)
    (sameType : ∀ asset, (change asset).type = asset.type) :
    AssetsKept (modifyFirst key change assets) where
  symbols := by
    rw [map_modifyFirst sameSymbol]
    exact before.symbols
  listed := by
    rw [map_modifyFirst sameSymbol]
    exact before.listed
  core := forall_modifyFirst before.core fun asset _ basic core =>
    (sameType asset).trans (basic ((sameSymbol asset).symm.trans core))

/-- Recording a larger supply of an issued asset lowers the surplus of it. -/
theorem adjustAssetCurrentSupply_posted (kept : Aspect → Prop) (state : State)
    {assets : List AssetObject} {symbol : AssetSymbol} {delta : Int}
    (adjusted : adjustAssetCurrentSupply state.assets symbol delta = .ok assets) :
    Posted kept (fun other => -(Asset.mk delta symbol).issued other) state
      { state with assets } := by
  simp only [adjustAssetCurrentSupply, getAssetBySymbol, bind_ok_iff, expect_ok_iff, require_ok_iff,
    pure_ok_iff] at adjusted
  obtain ⟨asset, found, _, _, _, _, rfl⟩ := adjusted
  have same : asset.symbol = symbol := by simpa using List.find?_some found
  constructor
  · intro sound
    exact { sound with assets := sound.assets.modify (fun _ => rfl) (fun _ => rfl) }
  · exact fun _ _ member _ => member
  · intro _ other
    simp only [surplus, held, outstanding, Asset.issued, Asset.under]
    by_cases core : other = deipSymbol
    · simp only [core, if_true]
      omega
    · rw [if_neg core, if_neg core, if_neg core, total_modifyFirst _ found]
      simp only [AssetObject.supplied, same]
      split <;> omega
  · intro _ aspect _ before
    cases aspect with
    | reserved => exact before
    | counted => exact { before with elected := before.elected }
    | rated => exact { before with tokens := before.tokens }
    | rooted => exact { before with balances := before.balances }
    | coreOnly => exact { before with vestings := before.vestings }
    | awarded _ _ => exact before

/-- Rewriting the tables that the ledger only reads. -/
theorem posted_registry {registry : Registry}
    (numbered : state.registry.Numbered → registry.Numbered)
    (stable : ∀ research group, state.registry.groupOf research = some group →
      registry.groupOf research = some group)
    (grounded : ∀ research ∈ registry.researches, grounds state research.researchGroup deipSymbol) :
    Posted kept (fun _ => 0) state { state with registry } where
  sound sound := { sound with
    researches := numbered sound.researches
    sales := sound.sales.congr stable fun _ _ => rfl }
  closed _ _ member _ := member
  surplus _ _ := (add_zero _).symm
  holds _ aspect _ before := by
    cases aspect with
    | reserved => exact before
    | counted => exact { before with elected := before.elected }
    | rated => exact { before with tokens := before.tokens }
    | rooted =>
      exact { before with researches := fun research member => grounded research member before }
    | coreOnly => exact { before with vestings := before.vestings }
    | awarded _ _ => exact before

theorem updateTokenizedResearch_posted (kept : Aspect → Prop) (state : State)
    {registry : Registry} {asset : AssetObject} {change : Research → Except String Research}
    (updated : updateTokenizedResearch state.registry asset change = .ok registry) :
    Posted kept (fun _ => 0) state { state with registry } := by
  have before : ∀ research ∈ state.registry.researches,
      grounds state research.researchGroup deipSymbol :=
    fun research member rooted => rooted.researches research member
  unfold updateTokenizedResearch at updated
  split at updated
  · rw [pure_ok_iff] at updated
    exact updated ▸ posted_registry id (fun _ _ => id) before
  · simp only [bind_ok_iff, pure_ok_iff] at updated
    obtain ⟨externalId, _, _, _, changed, _, rfl⟩ := updated
    refine posted_registry ?_ ?_ (forall_modifyFirst before fun _ _ grounded => grounded)
    · intro numbered
      rw [Registry.Numbered, map_modifyFirst, length_modifyFirst]
      · exact numbered
      · exact fun _ => rfl
    · intro research group owned
      rw [← owned]
      apply map_find?_modifyFirst
      · exact fun _ => rfl
      · exact fun _ => rfl

theorem issueAsset_posted {asset : AssetObject} {recipient : Name} {amount : Asset}
    (same : asset.symbol = amount.symbol) (issuable : amount.symbol ≠ deipSymbol)
    (known : grounds state recipient amount.symbol)
    (issued : issueAsset state asset recipient amount = .ok next) :
    Posted kept (fun _ => 0) state next := by
  simp only [issueAsset, bind_ok_iff, pure_ok_iff] at issued
  obtain ⟨balances, adjusted, assets, supplied, registry, updated, rfl⟩ := issued
  have paid := adjustAccountBalance_posted kept state (.inl known) adjusted
  have recorded := adjustAssetCurrentSupply_posted kept { state with balances } supplied
  have tokenized := updateTokenizedResearch_posted kept { state with balances, assets } updated
  refine ((paid.trans recorded).trans tokenized).congr fun _ symbol => ?_
  rw [same, Asset.issued_of_ne issuable]
  omega

theorem reserveAsset_posted {asset : AssetObject} {owner : Name} {amount : Asset}
    (same : asset.symbol = amount.symbol) (issuable : amount.symbol ≠ deipSymbol)
    (positive : 0 < amount.amount) (reserved : reserveAsset state asset owner amount = .ok next) :
    Posted kept (fun _ => 0) state next := by
  simp only [reserveAsset, bind_ok_iff, pure_ok_iff] at reserved
  obtain ⟨balances, adjusted, assets, supplied, registry, updated, rfl⟩ := reserved
  have debit : amount.neg.amount < 0 := by
    simp only [Asset.neg]
    omega
  have paid := adjustAccountBalance_posted kept state (.inr debit) adjusted
  have recorded := adjustAssetCurrentSupply_posted kept { state with balances } supplied
  have tokenized := updateTokenizedResearch_posted kept { state with balances, assets } updated
  refine ((paid.trans recorded).trans tokenized).congr fun _ symbol => ?_
  have burned : (Asset.mk (-amount.amount) asset.symbol).issued symbol = amount.neg.under symbol := by
    rw [same]
    exact Asset.issued_of_ne (show amount.neg.symbol ≠ deipSymbol from issuable) symbol
  rw [burned]
  omega

/-! ## The evaluators -/

theorem TransferOperation.apply_posted {op : TransferOperation} (valid : op.validate = .ok ())
    (applied : op.apply state = .ok next) : Posted kept (fun _ => 0) state next := by
  have positive := require_ok_iff.mp valid
  simp only [apply, bind_ok_iff, require_ok_iff, pure_ok_iff] at applied
  obtain ⟨_, _, _, toExists, _, _, _, _, _, _, _, _, debited, withdrawn, balances, credited, rfl⟩ :=
    applied
  have debit : op.amount.neg.amount < 0 := by
    simp only [Asset.neg]
    omega
  have known : grounds state op.toAccount op.amount.symbol :=
    fun _ => State.known_of_exists toExists
  have moved := (adjustAccountBalance_moved (grounds state) (.inr debit) withdrawn).trans
    (adjustAccountBalance_moved (grounds state) (.inl known) credited)
  refine (moved.congr fun symbol => ?_).posted
  rw [Asset.under_neg]
  omega

/-- A new asset has no supply. It is not the core asset, which is there already. -/
theorem CreateAssetOperation.apply_posted {op : CreateAssetOperation}
    (applied : op.apply state = .ok next) : Posted kept (fun _ => 0) state next := by
  simp only [apply, createAsset, bind_ok_iff, require_ok_iff, pure_ok_iff] at applied
  obtain ⟨_, _, _, unknown, read, _, assets, ⟨_, _, _, fresh, rfl⟩, rfl⟩ := applied
  constructor
  · intro sound
    refine { sound with assets := ⟨?_, ?_, ?_⟩ }
    · exact nodup_append_fresh sound.assets.symbols fun other member => (fresh other member).1
    · rw [List.map_append]
      exact List.mem_append_left _ sound.assets.listed
    · refine forall_append_singleton sound.assets.core fun core => ?_
      obtain ⟨asset, member, same⟩ := List.mem_map.mp sound.assets.listed
      exact absurd (same.trans core.symm) (fresh asset member).1
  · exact fun _ _ member _ => member
  · intro _ symbol
    simp [surplus, held, outstanding, AssetObject.supplied]
  · intro _ aspect _ before
    cases aspect with
    | reserved => exact before
    | counted => exact { before with elected := before.elected }
    | rated => exact { before with tokens := before.tokens }
    | rooted => exact { before with balances := before.balances }
    | coreOnly => exact { before with vestings := before.vestings }
    | awarded _ _ => exact before

theorem IssueAssetOperation.apply_posted {op : IssueAssetOperation} (valid : op.validate = .ok ())
    (applied : op.apply state = .ok next) : Posted kept (fun _ => 0) state next := by
  simp only [validate, bind_ok_iff, require_ok_iff] at valid
  obtain ⟨_, issuable, _⟩ := valid
  simp only [apply, bind_ok_iff, require_ok_iff] at applied
  obtain ⟨_, _, _, recipientExists, asset, got, _, _, issued⟩ := applied
  exact issueAsset_posted (getAssetBySymbol_symbol got).1 issuable
    (fun _ => State.known_of_exists recipientExists) issued

theorem ReserveAssetOperation.apply_posted {op : ReserveAssetOperation}
    (valid : op.validate = .ok ()) (applied : op.apply state = .ok next) :
    Posted kept (fun _ => 0) state next := by
  simp only [validate, bind_ok_iff, require_ok_iff] at valid
  obtain ⟨_, issuable, positive⟩ := valid
  simp only [apply, bind_ok_iff, require_ok_iff] at applied
  obtain ⟨_, _, _, _, asset, got, reserved⟩ := applied
  exact reserveAsset_posted (getAssetBySymbol_symbol got).1 issuable positive reserved

theorem TransferToCommonTokensOperation.apply_posted {op : TransferToCommonTokensOperation}
    (valid : op.validate = .ok ()) (applied : op.apply state = .ok next) :
    Posted kept (fun _ => 0) state next := by
  have released := apply_released (grounds state) valid applied
  rw [← neg_neg op.amount.amount, neg_neg (-op.amount.amount)] at released
  exact released.posted

/-- The schedule of a withdrawal keeps the accounts reserved unless its amount is
    negative. -/
theorem WithdrawCommonTokensOperation.apply_posted {op : WithdrawCommonTokensOperation}
    (positive : kept .reserved → 0 ≤ op.totalCommonTokensAmount)
    (applied : op.apply state = .ok next) : Posted kept (fun _ => 0) state next := by
  obtain ⟨name, rate, time, toWithdraw, rfl, signs⟩ := apply_effect applied
  have names : (updateWithdraw state name rate time toWithdraw).accounts.map Account.name =
      state.accounts.map Account.name := by
    exact map_modifyFirst fun _ => rfl
  have common : total Account.commonTokensBalance
      (updateWithdraw state name rate time toWithdraw).accounts =
      total Account.commonTokensBalance state.accounts := by
    unfold updateWithdraw modifyAccount
    exact total_modifyFirst_same fun _ => rfl
  have expertise : total Account.expertiseTokensBalance
      (updateWithdraw state name rate time toWithdraw).accounts =
      total Account.expertiseTokensBalance state.accounts := by
    unfold updateWithdraw modifyAccount
    exact total_modifyFirst_same fun _ => rfl
  constructor
  · intro sound
    exact { sound with
      named := (congrArg List.Nodup names).mpr sound.named
      funded := sound.funded.trans common.symm }
  · exact fun _ _ member _ => member
  · intro _ symbol
    exact (add_zero _).symm
  · intro _ aspect keeps before
    cases aspect with
    | reserved =>
      refine forall_modifyFirst before ?_
      rintro row _ ⟨common, _, _, _⟩
      obtain ⟨ratePositive, amountPositive⟩ := signs (positive keeps)
      exact ⟨common, le_refl _, ratePositive, amountPositive⟩
    | counted =>
      exact ⟨forall_modifyFirst before.experts fun _ _ sign => sign,
        before.counted.trans expertise.symm, before.elected⟩
    | rated => exact before.of_ratings (map_modifyFirst fun _ => rfl)
    | rooted => exact before.of_names names
    | coreOnly => exact { before with vestings := before.vestings }
    | awarded _ _ => exact before

theorem SetWithdrawCommonTokensRouteOperation.apply_posted
    {op : SetWithdrawCommonTokensRouteOperation} (applied : op.apply state = .ok next) :
    Posted kept (fun _ => 0) state next := by
  obtain ⟨routes, accounts, rfl, funded⟩ := apply_effect applied
  have rerouted := posted_unrecorded kept { state with accounts } routes state.schedule
    state.props.headBlockNumber state.props.time state.props.currentWitness
  exact (funded.posted.trans rerouted).congr fun _ _ => rfl

/-- A new witness has no votes. -/
theorem appendWitness_posted {witness : Witness} (unelected : witness.votes = 0) :
    Posted kept (fun _ => 0) state { state with witnesses := state.witnesses ++ [witness] } := by
  constructor
  · intro sound
    exact { sound with solvent := sound.solvent }
  · exact fun _ _ member _ => member
  · intro _ symbol
    exact (add_zero _).symm
  · intro _ aspect _ before
    cases aspect with
    | reserved => exact before
    | counted =>
      have positive : 0 ≤ state.props.totalExpertTokensAmount := by
        rw [before.counted]
        exact total_nonneg before.experts
      exact { before with
        elected := forall_append_singleton before.elected (unelected.trans_le positive) }
    | rated => exact { before with tokens := before.tokens }
    | rooted => exact { before with balances := before.balances }
    | coreOnly => exact { before with vestings := before.vestings }
    | awarded _ _ => exact before

theorem WitnessUpdateOperation.apply_posted {op : WitnessUpdateOperation}
    (applied : op.apply state = .ok next) : Posted kept (fun _ => 0) state next := by
  rcases apply_effect applied with rfl | ⟨witness, unelected, rfl⟩
  · exact Posted.refl kept _
  · exact appendWitness_posted unelected

end DeipChain.Ledger
