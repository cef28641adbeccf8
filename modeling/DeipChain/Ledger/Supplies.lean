import DeipChain.Ledger.SaleBooks

/-!
# Discipline supplies

A discipline supply holds an amount of an asset and spends a fixed part of it in each
block on the researches of its discipline, by their expertise contributions. The shares
are paid in core tokens, whatever the asset of the supply is, and what a supply loses in
a block need not be what its researches were paid.
-/
namespace DeipChain.Ledger

open DeipChain.Result DeipChain.Table

/-- `DEIP_LIMIT_DISCIPLINE_SUPPLIES_PER_GRANTOR`. -/
def limitDisciplineSuppliesPerGrantor : Nat := 5

/-- `DEIP_MIN_DISCIPLINE_SUPPLY_PER_BLOCK`. -/
def minDisciplineSupplyPerBlock : Int := 1

/-! ## The shares of the researches -/

/-- The expertise contributions in a discipline. -/
def State.contributionsIn (state : State) (discipline : Nat) : List ExpertiseContribution :=
  state.registry.expertiseContributions.filter fun contribution =>
    contribution.disciplineId == discipline

def State.getResearchContent (state : State) (id : Nat) : Except String ResearchContent :=
  expect (state.registry.contents.find? fun content => content.id == id) unknownKey

/-- The weight that a contribution takes out of the distribution: that of an active final
    result. -/
def excludedWeight (state : State) (contribution : ExpertiseContribution) : Except String Int := do
  let content ← state.getResearchContent contribution.researchContentId
  return if content.isFinalResult && content.isActive then contribution.eci else 0

/-- The share of one contribution: the account of its research group and the amount. -/
def researchShare (state : State) (grant weight : Int) (contribution : ExpertiseContribution) :
    Except String (List (Name × Int)) := do
  let content ← state.getResearchContent contribution.researchContentId
  if !content.isFinalResult && content.isActive && contribution.eci != 0 then do
    let share ← weightedShare grant contribution.eci weight
    let research ← state.getResearchById contribution.researchId
    let group ← state.getResearchGroup research.researchGroupId
    return [(group.account, share)]
  else return []

/-- The shares of the researches of a discipline in a grant, in order. -/
def supplyShares (state : State) (discipline : Nat) (grant : Int) :
    Except String (List (Name × Int)) := do
  let contributions := state.contributionsIn discipline
  let totalEci := (contributions.map ExpertiseContribution.eci).sum
  let _ ← expect (state.disciplines.find? fun other => other.id == discipline) unknownKey
  if totalEci = 0 then return []
  else do
    let excluded ← contributions.mapM (excludedWeight state)
    let shares ← contributions.mapM (researchShare state grant (totalEci - excluded.sum))
    return shares.flatten

/-- What is paid in all. -/
def usedGrant (shares : List (Name × Int)) : Int := (shares.map Prod.snd).sum

def payShares (assets : List AssetObject) (balances : List Balance) (shares : List (Name × Int)) :
    Except String (List Balance) :=
  shares.foldlM (fun balances share =>
    adjustAccountBalance assets balances share.1 ⟨share.2, deipSymbol⟩) balances

/-- `supply_researches_in_discipline`: the state after the payments, and their sum. -/
def supplyResearchesInDiscipline (state : State) (discipline : Nat) (grant : Int) :
    Except String (State × Int) := do
  let shares ← supplyShares state discipline grant
  let balances ← payShares state.assets state.balances shares
  return ({ state with balances }, usedGrant shares)

/-! ## The supplies -/

def getDisciplineSupply (supplies : List DisciplineSupply) (id : Nat) :
    Except String DisciplineSupply :=
  expect (supplies.find? fun supply => supply.id == id) unknownKey

def modifySupply (supplies : List DisciplineSupply) (id : Nat)
    (change : DisciplineSupply → DisciplineSupply) : List DisciplineSupply :=
  modifyFirst (fun supply => supply.id == id) change supplies

def removeSupply (supplies : List DisciplineSupply) (id : Nat) : List DisciplineSupply :=
  supplies.eraseP fun supply => supply.id == id

/-- The supplies are told apart by ids that are not used. -/
def freshSupplyId (supplies : List DisciplineSupply) : Nat :=
  supplies.foldl (fun next supply => max next (supply.id + 1)) 0

structure SupplyTerms where
  grantor : Name
  balance : Asset
  targetDiscipline : Nat
  endTime : Time
  isExtendable : Bool
deriving DecidableEq, Repr

/-- `create_discipline_supply`. The start time of the contract is not used. -/
def createDisciplineSupply (state : State) (terms : SupplyTerms) : Except String State := do
  require ((state.supplies.filter fun supply => supply.grantor == terms.grantor).length <
      limitDisciplineSuppliesPerGrantor)
    "can't create more then ${1} DISCIPLINE_SUPPLIES per grantor"
  let balances ← adjustAccountBalance state.assets state.balances terms.grantor terms.balance.neg
  let start := state.props.time
  require (start < terms.endTime) "Invalid discipline supply duration."
  let perBlock := (terms.balance.amount * blockInterval).tdiv ((terms.endTime - start : Nat) : Int)
  require (minDisciplineSupplyPerBlock ≤ perBlock)
    "We can't proceed discipline_supply that spend less than ${1} per block"
  return { state with
    balances
    supplies := state.supplies ++ [
      { id := freshSupplyId state.supplies
        grantor := terms.grantor
        targetDiscipline := terms.targetDiscipline
        balance := terms.balance
        perBlock
        startTime := start
        endTime := terms.endTime
        isExtendable := terms.isExtendable }] }

/-- `allocate_funds`: a supply that is used up is removed. -/
def allocateFunds (supplies : List DisciplineSupply) (supply : DisciplineSupply) :
    Except String (List DisciplineSupply) := do
  let balance ← supply.balance.sub ⟨min supply.perBlock supply.balance.amount, deipSymbol⟩
  if balance.amount = 0 then return removeSupply supplies supply.id
  else return modifySupply supplies supply.id fun supply => { supply with balance }

/-- One round of `process_discipline_supplies`. -/
def processDisciplineSupply (state : State) (id : Nat) : Except String State := do
  let supply ← getDisciplineSupply state.supplies id
  let (supplied, used) ←
    supplyResearchesInDiscipline state supply.targetDiscipline supply.perBlock
  if used = 0 then
    if supply.isExtendable then
      return { supplied with
        supplies := modifySupply supplied.supplies id fun supply =>
          { supply with endTime := supply.endTime + blockInterval } }
    else return supplied
  else do
    let supplies ← allocateFunds supplied.supplies supply
    return { supplied with supplies }

/-- `process_discipline_supplies`, in the order of `by_start_time`. -/
def processDisciplineSupplies (state : State) : Except String State :=
  (((state.supplies.filter fun supply => supply.startTime ≤ state.props.time).insertionSort
    fun one other => one.startTime ≤ other.startTime).map DisciplineSupply.id).foldlM
    processDisciplineSupply state

/-- The balance of an expired supply after a last payment to the researches. -/
def remainder (supply : DisciplineSupply) (used : Int) : Except String Asset :=
  if 0 < used then supply.balance.sub ⟨used, deipSymbol⟩ else return supply.balance

/-- What is left of a supply goes back to its grantor. -/
def returnRemainder (state : State) (grantor : Name) (rest : Asset) : Except String State :=
  if rest.amount ≠ 0 then do
    let account ← state.getAccount grantor
    let balances ← adjustAccountBalance state.assets state.balances account.name rest
    return { state with balances }
  else return state

/-- One round of `clear_expired_discipline_supplies`. -/
def clearExpiredDisciplineSupply (state : State) (id : Nat) : Except String State := do
  let supply ← getDisciplineSupply state.supplies id
  if 0 < supply.balance.amount then do
    let (supplied, used) ←
      supplyResearchesInDiscipline state supply.targetDiscipline supply.balance.amount
    let rest ← remainder supply used
    let returned ← returnRemainder supplied supply.grantor rest
    return { returned with supplies := removeSupply returned.supplies id }
  else return { state with supplies := removeSupply state.supplies id }

/-- `clear_expired_discipline_supplies`, in the order of `by_end_time`. -/
def clearExpiredDisciplineSupplies (state : State) : Except String State :=
  (((state.supplies.filter fun supply => supply.endTime < state.props.time).insertionSort
    fun one other => one.endTime ≤ other.endTime).map DisciplineSupply.id).foldlM
    clearExpiredDisciplineSupply state

/-! ## Supplies in the books -/

variable {kept : Aspect → Prop} {state next : State}

theorem researchShare_grounds {grant weight : Int} {contribution : ExpertiseContribution}
    {shares : List (Name × Int)} (computed : researchShare state grant weight contribution = .ok shares) :
    ∀ share ∈ shares, grounds state share.1 deipSymbol := by
  simp only [researchShare, bind_ok_iff] at computed
  obtain ⟨content, _, computed⟩ := computed
  split at computed
  · simp only [bind_ok_iff, pure_ok_iff] at computed
    obtain ⟨amount, _, research, _, group, got, rfl⟩ := computed
    intro share member
    rw [List.mem_singleton.mp member]
    exact getResearchGroup_grounds state got deipSymbol
  · rw [pure_ok_iff] at computed
    subst computed
    exact fun share member => absurd member List.not_mem_nil

theorem mapM_forall {A B : Type} {compute : A → Except String B} {property : B → Prop}
    (each : ∀ item result, compute item = .ok result → property result) {items : List A}
    {results : List B} (ran : items.mapM compute = .ok results) :
    ∀ result ∈ results, property result := by
  intro result member
  obtain ⟨item, -, computed⟩ := exists_of_mem_mapM ran member
  exact each item result computed

/-- The shares go to research groups. -/
theorem supplyShares_grounds {discipline : Nat} {grant : Int} {shares : List (Name × Int)}
    (computed : supplyShares state discipline grant = .ok shares) :
    ∀ share ∈ shares, grounds state share.1 deipSymbol := by
  simp only [supplyShares, bind_ok_iff] at computed
  obtain ⟨_, _, computed⟩ := computed
  split at computed
  · rw [pure_ok_iff] at computed
    subst computed
    exact fun share member => absurd member List.not_mem_nil
  · simp only [bind_ok_iff, pure_ok_iff] at computed
    obtain ⟨excluded, _, parts, mapped, rfl⟩ := computed
    intro share member
    obtain ⟨part, isPart, isShare⟩ := List.mem_flatten.mp member
    exact mapM_forall (fun _ _ => researchShare_grounds) mapped part isPart share isShare

theorem payShares_moved (may : Name → AssetSymbol → Prop) {assets : List AssetObject}
    {balances after : List Balance} {shares : List (Name × Int)}
    (owners : ∀ share ∈ shares, may share.1 deipSymbol)
    (paid : payShares assets balances shares = .ok after) :
    Moved may (Asset.mk (usedGrant shares) deipSymbol).under balances after := by
  unfold payShares at paid
  induction shares generalizing balances with
  | nil =>
    rw [List.foldlM_nil, pure_ok_iff] at paid
    subst paid
    refine (Moved.refl may balances).congr fun symbol => ?_
    simp [Asset.under, usedGrant]
  | cons share rest hypothesis =>
    rw [List.foldlM_cons, bind_ok_iff] at paid
    obtain ⟨middle, first, others⟩ := paid
    have head := adjustAccountBalance_moved may (.inl (owners share List.mem_cons_self)) first
    have tail := hypothesis (fun other member => owners other (List.mem_cons_of_mem _ member)) others
    refine (head.trans tail).congr fun symbol => ?_
    simp only [Asset.under, usedGrant, List.map_cons, List.sum_cons]
    split <;> omega

theorem supplyResearches_moved {discipline : Nat} {grant : Int} {result : State × Int}
    (supplied : supplyResearchesInDiscipline state discipline grant = .ok result) :
    ∃ shares balances, supplyShares state discipline grant = .ok shares ∧
      result = ({ state with balances }, usedGrant shares) ∧
      Moved (grounds state) (Asset.mk (usedGrant shares) deipSymbol).under state.balances balances := by
  simp only [supplyResearchesInDiscipline, bind_ok_iff, pure_ok_iff] at supplied
  obtain ⟨shares, computed, balances, paid, rfl⟩ := supplied
  exact ⟨shares, balances, computed, rfl,
    payShares_moved (grounds state) (supplyShares_grounds computed) paid⟩

/-- Rewriting the supplies brings in what their balances change. -/
theorem posted_supplies {supplies : List DisciplineSupply} {change : AssetSymbol → Int}
    (sum : ∀ symbol, total (fun supply => supply.balance.under symbol) supplies =
      total (fun supply => supply.balance.under symbol) state.supplies + change symbol)
    (sound : SuppliesKept state.supplies → SuppliesKept supplies)
    (core : kept .coreOnly → (∀ supply ∈ state.supplies, supply.balance.symbol = deipSymbol) →
      ∀ supply ∈ supplies, supply.balance.symbol = deipSymbol) :
    Posted kept change state { state with supplies } where
  sound before := { before with supplies := sound before.supplies }
  closed _ _ member _ := member
  surplus _ symbol := by
    have changed := sum symbol
    simp only [surplus, held, outstanding]
    omega
  holds _ aspect keeps before := by
    cases aspect with
    | reserved => exact before
    | counted => exact { before with elected := before.elected }
    | rated => exact { before with tokens := before.tokens }
    | rooted => exact { before with balances := before.balances }
    | coreOnly => exact { before with supplies := core keeps before.supplies }
    | awarded _ _ => exact before

theorem removeSupply_kept {supplies : List DisciplineSupply} (id : Nat)
    (before : SuppliesKept supplies) : SuppliesKept (removeSupply supplies id) where
  ids := before.ids.sublist ((List.eraseP_sublist).map _)
  funded supply member := before.funded supply (List.mem_of_mem_eraseP member)

theorem removeSupply_posted {supply : DisciplineSupply}
    (found : state.supplies.find? (fun other => other.id == supply.id) = some supply) :
    Posted kept (fun symbol => -supply.balance.under symbol) state
      { state with supplies := removeSupply state.supplies supply.id } := by
  apply posted_supplies
  · intro symbol
    rw [removeSupply, total_eraseP _ found]
    exact Int.sub_eq_add_neg
  · exact removeSupply_kept supply.id
  · intro _ core other member
    exact core other (List.mem_of_mem_eraseP member)

theorem modifySupply_posted (change : DisciplineSupply → DisciplineSupply)
    {supply : DisciplineSupply}
    (found : state.supplies.find? (fun other => other.id == supply.id) = some supply)
    (same : ∀ row, (change row).id = row.id)
    (positive : 0 ≤ supply.balance.amount → 0 ≤ (change supply).balance.amount)
    (symbol : (change supply).balance.symbol = supply.balance.symbol) :
    Posted kept
      (fun symbol => (change supply).balance.under symbol - supply.balance.under symbol) state
      { state with supplies := modifySupply state.supplies supply.id change } := by
  have identical (row : DisciplineSupply)
      (hit : state.supplies.find? (fun other => other.id == supply.id) = some row) : row = supply :=
    Option.some.inj (hit.symm.trans found)
  apply posted_supplies
  · intro symbol
    rw [modifySupply, total_modifyFirst _ found]
  · intro before
    refine ⟨?_, forall_modifyFirst before.funded fun row hit funded => ?_⟩
    · rw [modifySupply, map_modifyFirst same]
      exact before.ids
    · rw [identical row hit] at funded ⊢
      exact positive funded
  · intro _ core
    refine forall_modifyFirst core fun row hit own => ?_
    rw [identical row hit] at own ⊢
    exact symbol.trans own

/-- What a supply loses in a block. -/
def DisciplineSupply.allotment (supply : DisciplineSupply) : Int :=
  min supply.perBlock supply.balance.amount

theorem allocateFunds_posted {supply : DisciplineSupply} {supplies : List DisciplineSupply}
    (found : state.supplies.find? (fun other => other.id == supply.id) = some supply)
    (allocated : allocateFunds state.supplies supply = .ok supplies) :
    Posted kept (Asset.mk (-supply.allotment) deipSymbol).under state { state with supplies } := by
  simp only [allocateFunds, bind_ok_iff, Asset.sub_ok_iff] at allocated
  obtain ⟨balance, ⟨core, rfl⟩, allocated⟩ := allocated
  have lost : ∀ symbol, (Asset.mk (supply.balance.amount - supply.allotment)
      supply.balance.symbol).under symbol - supply.balance.under symbol =
        (Asset.mk (-supply.allotment) deipSymbol).under symbol := by
    intro symbol
    simp only [Asset.under, core]
    split <;> omega
  split at allocated
  · rename_i empty
    rw [pure_ok_iff] at allocated
    subst allocated
    refine (removeSupply_posted found).congr fun _ symbol => ?_
    rw [← lost symbol]
    have none : (Asset.mk (supply.balance.amount - supply.allotment)
        supply.balance.symbol).under symbol = 0 := by
      simp only [Asset.under]
      split
      · exact empty
      · rfl
    rw [none]
    omega
  · rw [pure_ok_iff] at allocated
    subst allocated
    have changed : Posted kept _ state _ := modifySupply_posted
      (fun row => { row with
        balance := ⟨supply.balance.amount - supply.allotment, supply.balance.symbol⟩ })
      found (fun _ => rfl) (fun _ => by simp [DisciplineSupply.allotment]) rfl
    exact changed.congr fun _ symbol => lost symbol

/-- A round pays the researches and takes the allotment from the supply. -/
theorem processDisciplineSupply_posted {id : Nat}
    (processed : processDisciplineSupply state id = .ok next) :
    ∃ supply shares, state.supplies.find? (fun other => other.id == id) = some supply ∧
      supplyShares state supply.targetDiscipline supply.perBlock = .ok shares ∧
      Posted kept (Asset.mk (if usedGrant shares = 0 then 0 else usedGrant shares - supply.allotment)
        deipSymbol).under state next := by
  simp only [processDisciplineSupply, bind_ok_iff] at processed
  obtain ⟨supply, got, result, supplied, processed⟩ := processed
  have found := expect_ok_iff.mp got
  have own : supply.id = id := by simpa using List.find?_some found
  subst own
  obtain ⟨shares, balances, computed, rfl, moved⟩ := supplyResearches_moved supplied
  refine ⟨supply, shares, found, computed, ?_⟩
  dsimp only at processed
  split at processed
  · rename_i unused
    rw [if_pos unused]
    rw [unused] at moved
    split at processed
    · rw [pure_ok_iff] at processed
      subst processed
      have extended : Posted kept _ { state with balances } _ := modifySupply_posted
        (fun row => { row with endTime := row.endTime + blockInterval })
        found (fun _ => rfl) id rfl
      refine (moved.posted.trans extended).congr fun _ symbol => ?_
      simp
    · rw [pure_ok_iff] at processed
      exact processed ▸ moved.posted
  · rename_i used
    rw [if_neg used]
    simp only [bind_ok_iff, pure_ok_iff] at processed
    obtain ⟨supplies, allocated, rfl⟩ := processed
    have lost : Posted kept _ { state with balances } _ := allocateFunds_posted found allocated
    refine (moved.posted.trans lost).congr fun _ symbol => ?_
    simp only [Asset.under]
    split <;> omega

/-- What is left of an expired supply goes back to its grantor. -/
theorem returnRemainder_posted {grantor : Name} {rest : Asset}
    (returned : returnRemainder state grantor rest = .ok next) :
    Posted kept rest.under state next := by
  unfold returnRemainder at returned
  split at returned
  · simp only [bind_ok_iff, pure_ok_iff] at returned
    obtain ⟨account, got, balances, adjusted, rfl⟩ := returned
    obtain ⟨same, known⟩ := State.known_of_get got
    exact adjustAccountBalance_posted kept state (.inl fun _ => same ▸ known) adjusted
  · rename_i empty
    rw [pure_ok_iff] at returned
    subst returned
    refine (Posted.refl kept state).congr fun _ symbol => ?_
    simp only [ne_eq, not_not] at empty
    simp [Asset.under, empty]

theorem returnRemainder_balances {grantor : Name} {rest : Asset}
    (returned : returnRemainder state grantor rest = .ok next) :
    ∃ balances, next = { state with balances } := by
  unfold returnRemainder at returned
  split at returned
  · simp only [bind_ok_iff, pure_ok_iff] at returned
    obtain ⟨_, _, balances, _, rfl⟩ := returned
    exact ⟨balances, rfl⟩
  · rw [pure_ok_iff] at returned
    exact ⟨state.balances, returned.symm⟩

/-- A payment to the researches and the rest make up the balance of a supply. -/
theorem remainder_under {supply : DisciplineSupply} {used : Int} {rest : Asset}
    (remains : remainder supply used = .ok rest) (symbol : AssetSymbol) :
    (Asset.mk used deipSymbol).under symbol + rest.under symbol =
      supply.balance.under symbol + (Asset.mk (min used 0) deipSymbol).under symbol := by
  unfold remainder at remains
  split at remains
  · obtain ⟨core, rfl⟩ := Asset.sub_ok_iff.mp remains
    simp only [Asset.under, core]
    split <;> omega
  · rw [pure_ok_iff] at remains
    subst remains
    simp only [Asset.under]
    split <;> split <;> omega

/-- What the researches are paid last is not negative. -/
def Settles (state : State) (supply : DisciplineSupply) : Prop :=
  ∀ shares, supplyShares state supply.targetDiscipline supply.balance.amount = .ok shares →
    0 ≤ usedGrant shares

/-- An expired supply is spent on the researches and returned. It pays more than it has
    when the shares come to less than nothing. -/
theorem clearExpiredDisciplineSupply_posted {id : Nat}
    (cleared : clearExpiredDisciplineSupply state id = .ok next) :
    ∃ supply excess, state.supplies.find? (fun other => other.id == id) = some supply ∧
      (Settles state supply → excess = 0) ∧
      Posted kept (Asset.mk excess deipSymbol).under state next := by
  simp only [clearExpiredDisciplineSupply, bind_ok_iff] at cleared
  obtain ⟨supply, got, cleared⟩ := cleared
  have found := expect_ok_iff.mp got
  have own : supply.id = id := by simpa using List.find?_some found
  subst own
  split at cleared
  · simp only [bind_ok_iff, pure_ok_iff] at cleared
    obtain ⟨result, supplied, rest, remains, returned, back, rfl⟩ := cleared
    obtain ⟨shares, balances, computed, rfl, moved⟩ := supplyResearches_moved supplied
    refine ⟨supply, min (usedGrant shares) 0, found, ?_, ?_⟩
    · intro settles
      have positive := settles shares computed
      omega
    · dsimp only at remains back
      have refunded : Posted kept _ { state with balances } _ := returnRemainder_posted back
      obtain ⟨after, rfl⟩ := returnRemainder_balances back
      have removed : Posted kept _ { state with balances := after } _ := removeSupply_posted found
      refine ((moved.posted.trans refunded).trans removed).congr fun _ symbol => ?_
      have parts := remainder_under remains symbol
      omega
  · rename_i spent
    rw [pure_ok_iff] at cleared
    subst cleared
    refine ⟨supply, 0, found, fun _ => rfl, Posted.of_sound fun sound => ?_⟩
    have empty : supply.balance.amount = 0 := by
      have funded := sound.supplies.funded supply (List.mem_of_find?_eq_some found)
      omega
    refine (removeSupply_posted found).congr fun _ symbol => ?_
    simp [Asset.under, empty]

/-! ## Rounds over the supplies -/

/-- A round of a process over the supplies. It pays from the supply of one id, in
    excess of what that supply loses unless the supply is `exact`, and writes nothing
    that another round or `exact` reads. -/
structure SupplyRound (kept : Aspect → Prop) (exact : State → DisciplineSupply → Prop)
    (step : State → Nat → Except String State) : Prop where
  posted : ∀ {state next : State} {id : Nat}, step state id = .ok next →
    ∃ supply excess, state.supplies.find? (fun other => other.id == id) = some supply ∧
      (exact state supply → excess = 0) ∧
      Posted kept (Asset.mk excess deipSymbol).under state next
  frame : ∀ {state next : State} {id : Nat}, step state id = .ok next →
    ∃ balances supplies, next = { state with balances, supplies } ∧
      ∀ other, other ≠ id → supplies.find? (fun supply => supply.id == other) =
        state.supplies.find? (fun supply => supply.id == other)
  reads : ∀ (state : State) (balances : List Balance) (supplies : List DisciplineSupply)
    (supply : DisciplineSupply), exact state supply → exact { state with balances, supplies } supply

theorem SupplyRound.run_posted {exact : State → DisciplineSupply → Prop}
    {step : State → Nat → Except String State} (round : SupplyRound kept exact step)
    {ids : List Nat} (ran : ids.foldlM step state = .ok next) :
    ∃ excess, Posted kept (Asset.mk excess deipSymbol).under state next ∧
      (ids.Nodup → (∀ id ∈ ids, ∀ supply,
        state.supplies.find? (fun other => other.id == id) = some supply → exact state supply) →
        excess = 0) := by
  induction ids generalizing state with
  | nil =>
    rw [List.foldlM_nil, pure_ok_iff] at ran
    subst ran
    refine ⟨0, (Posted.refl kept state).congr fun _ symbol => ?_, fun _ _ => rfl⟩
    simp [Asset.under]
  | cons id rest hypothesis =>
    rw [List.foldlM_cons, bind_ok_iff] at ran
    obtain ⟨middle, first, others⟩ := ran
    obtain ⟨supply, one, found, exactOne, head⟩ := round.posted first
    obtain ⟨more, tail, exactMore⟩ := hypothesis others
    obtain ⟨balances, supplies, rfl, unchanged⟩ := round.frame first
    refine ⟨one + more, (head.trans tail).congr fun _ symbol => ?_, ?_⟩
    · simp only [Asset.under]
      split <;> omega
    · intro distinct all
      rw [List.nodup_cons] at distinct
      have none := exactOne (all id List.mem_cons_self supply found)
      have noneMore := exactMore distinct.2 fun other member row hit => by
        have apart : other ≠ id := fun same => distinct.1 (same ▸ member)
        rw [unchanged other apart] at hit
        exact round.reads state balances supplies row
          (all other (List.mem_cons_of_mem id member) row hit)
      omega

/-- The ids of the supplies that pass a test, in any order. -/
theorem supplyIds_nodup (sound : Sound state) (test : DisciplineSupply → Bool)
    (order : DisciplineSupply → DisciplineSupply → Prop) [DecidableRel order] :
    (((state.supplies.filter test).insertionSort order).map DisciplineSupply.id).Nodup := by
  have sorted := (List.perm_insertionSort order (state.supplies.filter test)).map DisciplineSupply.id
  rw [sorted.nodup_iff]
  exact sound.supplies.ids.sublist (List.filter_sublist.map _)

theorem supplyIds_find (sound : Sound state) {test : DisciplineSupply → Bool}
    {order : DisciplineSupply → DisciplineSupply → Prop} [DecidableRel order] {id : Nat}
    (member : id ∈ ((state.supplies.filter test).insertionSort order).map DisciplineSupply.id)
    {supply : DisciplineSupply}
    (found : state.supplies.find? (fun other => other.id == id) = some supply) :
    supply ∈ state.supplies ∧ test supply = true := by
  obtain ⟨row, sorted, rfl⟩ := List.mem_map.mp member
  obtain ⟨listed, passed⟩ := List.mem_filter.mp ((List.mem_insertionSort order).mp sorted)
  have same : row = supply :=
    Option.some.inj ((find?_of_nodup sound.supplies.ids listed).symm.trans found)
  exact same ▸ ⟨listed, passed⟩

/-- What the researches are paid in a block is what the supply loses. -/
def Spends (state : State) (supply : DisciplineSupply) : Prop :=
  ∀ shares, supplyShares state supply.targetDiscipline supply.perBlock = .ok shares →
    usedGrant shares = 0 ∨ usedGrant shares = supply.allotment

theorem modifySupply_find_ne {supplies : List DisciplineSupply} {id other : Nat}
    (apart : other ≠ id) {change : DisciplineSupply → DisciplineSupply}
    (same : ∀ supply, (change supply).id = supply.id) :
    (modifySupply supplies id change).find? (fun supply => supply.id == other) =
      supplies.find? (fun supply => supply.id == other) :=
  find?_modifyFirst_ne apart same supplies

theorem removeSupply_find_ne {supplies : List DisciplineSupply} {id other : Nat}
    (apart : other ≠ id) :
    (removeSupply supplies id).find? (fun supply => supply.id == other) =
      supplies.find? (fun supply => supply.id == other) :=
  find?_eraseP_ne apart supplies

theorem processDisciplineSupply_frame {id : Nat}
    (processed : processDisciplineSupply state id = .ok next) :
    ∃ balances supplies, next = { state with balances, supplies } ∧
      ∀ other, other ≠ id → supplies.find? (fun supply => supply.id == other) =
        state.supplies.find? (fun supply => supply.id == other) := by
  simp only [processDisciplineSupply, supplyResearchesInDiscipline, allocateFunds, bind_ok_iff,
    pure_ok_iff] at processed
  obtain ⟨supply, got, result, ⟨shares, _, balances, _, rfl⟩, processed⟩ := processed
  have own : supply.id = id := by simpa using List.find?_some (expect_ok_iff.mp got)
  dsimp only at processed
  split at processed
  · split at processed
    · rw [pure_ok_iff] at processed
      exact ⟨balances, _, processed.symm,
        fun other apart => modifySupply_find_ne apart fun _ => rfl⟩
    · rw [pure_ok_iff] at processed
      exact ⟨balances, _, processed.symm, fun _ _ => rfl⟩
  · simp only [bind_ok_iff, pure_ok_iff] at processed
    obtain ⟨supplies, ⟨balance, _, allocated⟩, rfl⟩ := processed
    refine ⟨balances, supplies, rfl, fun other apart => ?_⟩
    rw [own] at allocated
    split at allocated
    · rw [pure_ok_iff] at allocated
      rw [← allocated, removeSupply_find_ne apart]
    · rw [pure_ok_iff] at allocated
      rw [← allocated, modifySupply_find_ne apart]
      exact fun _ => rfl

theorem processDisciplineSupply_round (kept : Aspect → Prop) :
    SupplyRound kept Spends processDisciplineSupply where
  posted processed := by
    obtain ⟨supply, shares, found, computed, posted⟩ := processDisciplineSupply_posted processed
    refine ⟨supply, _, found, fun spends => ?_, posted⟩
    rcases spends shares computed with none | all
    · exact if_pos none
    · rw [all, sub_self, ite_self]
  frame := processDisciplineSupply_frame
  reads _ _ _ _ spends := spends

theorem clearExpiredDisciplineSupply_frame {id : Nat}
    (cleared : clearExpiredDisciplineSupply state id = .ok next) :
    ∃ balances supplies, next = { state with balances, supplies } ∧
      ∀ other, other ≠ id → supplies.find? (fun supply => supply.id == other) =
        state.supplies.find? (fun supply => supply.id == other) := by
  simp only [clearExpiredDisciplineSupply, supplyResearchesInDiscipline, bind_ok_iff] at cleared
  obtain ⟨supply, got, cleared⟩ := cleared
  split at cleared
  · simp only [bind_ok_iff, pure_ok_iff] at cleared
    obtain ⟨result, ⟨shares, _, balances, _, rfl⟩, rest, _, returned, back, rfl⟩ := cleared
    obtain ⟨after, rfl⟩ := returnRemainder_balances back
    exact ⟨after, _, rfl, fun other apart => removeSupply_find_ne apart⟩
  · rw [pure_ok_iff] at cleared
    exact ⟨_, _, cleared.symm, fun other apart => removeSupply_find_ne apart⟩

theorem clearExpiredDisciplineSupply_round (kept : Aspect → Prop) :
    SupplyRound kept Settles clearExpiredDisciplineSupply where
  posted := clearExpiredDisciplineSupply_posted
  frame := clearExpiredDisciplineSupply_frame
  reads _ _ _ _ settles := settles

/-- The process of a block pays from the supplies that have started. -/
theorem processDisciplineSupplies_posted (processed : processDisciplineSupplies state = .ok next) :
    ∃ excess, Posted kept (Asset.mk excess deipSymbol).under state next ∧
      (Sound state → (∀ supply ∈ state.supplies, supply.startTime ≤ state.props.time →
        Spends state supply) → excess = 0) := by
  obtain ⟨excess, posted, exact⟩ := (processDisciplineSupply_round kept).run_posted processed
  refine ⟨excess, posted, fun sound spends => exact (supplyIds_nodup sound _ _) ?_⟩
  intro id member supply found
  obtain ⟨listed, started⟩ := supplyIds_find sound member found
  exact spends supply listed (of_decide_eq_true started)

theorem clearExpiredDisciplineSupplies_posted
    (cleared : clearExpiredDisciplineSupplies state = .ok next) :
    ∃ excess, Posted kept (Asset.mk excess deipSymbol).under state next ∧
      (Sound state → (∀ supply ∈ state.supplies, supply.endTime < state.props.time →
        Settles state supply) → excess = 0) := by
  obtain ⟨excess, posted, exact⟩ := (clearExpiredDisciplineSupply_round kept).run_posted cleared
  refine ⟨excess, posted, fun sound settles => exact (supplyIds_nodup sound _ _) ?_⟩
  intro id member supply found
  obtain ⟨listed, ended⟩ := supplyIds_find sound member found
  exact settles supply listed (of_decide_eq_true ended)

theorem freshSupplyId_fresh {supplies : List DisciplineSupply} :
    ∀ supply ∈ supplies, supply.id ≠ freshSupplyId supplies := by
  have grows : ∀ (rows : List DisciplineSupply) (start : Nat),
      start ≤ rows.foldl (fun next supply => max next (supply.id + 1)) start ∧
      ∀ supply ∈ rows, supply.id < rows.foldl (fun next supply => max next (supply.id + 1)) start := by
    intro rows
    induction rows with
    | nil => exact fun start => ⟨le_rfl, fun _ member => absurd member List.not_mem_nil⟩
    | cons row rows hypothesis =>
      intro start
      obtain ⟨above, later⟩ := hypothesis (max start (row.id + 1))
      refine ⟨(le_max_left _ _).trans above, fun supply member => ?_⟩
      rcases List.mem_cons.mp member with rfl | other
      · exact Nat.lt_of_succ_le ((le_max_right _ _).trans above)
      · exact later supply other
  exact fun supply member => ((grows supplies 0).2 supply member).ne

theorem appendSupply_posted (supply : DisciplineSupply) (fresh : supply.id = freshSupplyId state.supplies)
    (positive : 0 ≤ supply.balance.amount)
    (core : kept .coreOnly → supply.balance.symbol = deipSymbol) :
    Posted kept supply.balance.under state { state with supplies := state.supplies ++ [supply] } := by
  apply posted_supplies
  · intro symbol
    simp
  · intro before
    refine ⟨nodup_append_fresh before.ids fun other member => ?_,
      forall_append_singleton before.funded positive⟩
    rw [fresh]
    exact freshSupplyId_fresh other member
  · exact fun keeps before => forall_append_singleton before (core keeps)

/-- A supply that spends something in each block holds something. -/
theorem positive_of_perBlock {amount : Int} {duration : Nat}
    (spends : minDisciplineSupplyPerBlock ≤ (amount * (blockInterval : Int)).tdiv (duration : Int)) :
    0 < amount := by
  by_contra negative
  have opposite : 0 ≤ (-amount * (blockInterval : Int)).tdiv (duration : Int) :=
    Int.tdiv_nonneg (Int.mul_nonneg (by omega) (Int.natCast_nonneg _)) (Int.natCast_nonneg _)
  rw [Int.neg_mul, Int.neg_tdiv] at opposite
  simp only [minDisciplineSupplyPerBlock] at spends
  omega

/-- A new supply takes its balance from the grantor. -/
theorem createDisciplineSupply_posted {terms : SupplyTerms}
    (core : kept .coreOnly → terms.balance.symbol = deipSymbol)
    (created : createDisciplineSupply state terms = .ok next) :
    Posted kept (fun _ => 0) state next := by
  simp only [createDisciplineSupply, bind_ok_iff, require_ok_iff, pure_ok_iff] at created
  obtain ⟨_, _, balances, adjusted, _, _, _, spends, rfl⟩ := created
  have positive := positive_of_perBlock spends
  have debit : terms.balance.neg.amount < 0 := by
    simp only [Asset.neg]
    omega
  have paid := adjustAccountBalance_posted kept state (.inr debit) adjusted
  refine (paid.trans (appendSupply_posted _ rfl positive.le core)).congr fun _ symbol => ?_
  rw [Asset.under_neg]
  dsimp only
  omega

end DeipChain.Ledger
