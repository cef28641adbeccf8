import DeipChain.Ledger.TokenSales

/-!
# Token sales in the books

While a sale is pending its contributions lie in the ledger as its funds and what it
offers is frozen with its group. A contribution moves tokens from a balance into the
sale. When the sale is closed its frozen tokens are released, its contributions are
removed, and the payments that close it bring back as much as was removed.
-/
namespace DeipChain.Ledger

open DeipChain.Result DeipChain.Table

section Books

variable {kept : Aspect → Prop} {state next : State}

theorem SalesKept.nodup {registry : Registry} {balances : List Balance} {sales : List TokenSale}
    {contributions : List Contribution} (before : SalesKept registry balances sales contributions) :
    (sales.map TokenSale.id).Nodup :=
  before.ids ▸ List.nodup_range

theorem total_contributionsTo (contributions : List Contribution) (sale : Nat)
    (symbol : AssetSymbol) :
    total (fun contribution => contribution.amount.under symbol) (contributionsTo contributions sale) =
      total (Contribution.toward sale symbol) contributions := by
  induction contributions with
  | nil => rfl
  | cons contribution rest hypothesis =>
    unfold contributionsTo at hypothesis ⊢
    by_cases own : contribution.researchTokenSaleId = sale
    · simp [own, Contribution.toward, hypothesis]
    · simp [own, Contribution.toward, hypothesis]

/-- What is not for the sale stays. -/
theorem total_removeContributions (contributions : List Contribution) (sale : Nat)
    (symbol : AssetSymbol) :
    total (fun contribution => contribution.amount.under symbol)
        (removeContributions contributions sale) =
      total (fun contribution => contribution.amount.under symbol) contributions -
        total (Contribution.toward sale symbol) contributions := by
  have split := total_filter_add (fun contribution : Contribution => contribution.amount.under symbol)
    (fun contribution => contribution.researchTokenSaleId == sale) contributions
  have own := total_contributionsTo contributions sale symbol
  unfold contributionsTo at own
  unfold removeContributions
  omega

theorem toward_removeContributions {sale other : Nat} (differs : other ≠ sale)
    (contributions : List Contribution) (symbol : AssetSymbol) :
    total (Contribution.toward other symbol) (removeContributions contributions sale) =
      total (Contribution.toward other symbol) contributions := by
  induction contributions with
  | nil => rfl
  | cons contribution rest hypothesis =>
    unfold removeContributions at hypothesis ⊢
    by_cases own : contribution.researchTokenSaleId = sale
    · simp [own, Contribution.toward, Ne.symm differs, hypothesis]
    · simp [own, hypothesis]

theorem mem_removeContributions {contributions : List Contribution} {sale : Nat}
    {contribution : Contribution} (member : contribution ∈ removeContributions contributions sale) :
    contribution ∈ contributions ∧ contribution.researchTokenSaleId ≠ sale := by
  simpa [removeContributions] using member

section Close

variable {registry : Registry} {balances after : List Balance} {sales : List TokenSale}
variable {contributions : List Contribution} {sale : TokenSale} {close : TokenSale → TokenSale}
variable {group : Name}

/-- A sale that ends takes its contributions and its frozen tokens with it. -/
theorem SalesKept.closed (before : SalesKept registry balances sales contributions)
    (found : sales.find? (fun other => other.id == sale.id) = some sale)
    (pending : sale.Pending) (ended : ¬ (close sale).Pending)
    (same : ∀ row, (close row).id = row.id ∧ (close row).researchId = row.researchId ∧
      (close row).securityTokensOnSale = row.securityTokensOnSale ∧
      (close row).hardCap = row.hardCap)
    (owned : registry.groupOf sale.researchId = some group)
    (thawed : ∀ owner symbol, Ledger.frozen after owner symbol =
      Ledger.frozen balances owner symbol - (if group = owner then sale.offered symbol else 0)) :
    SalesKept registry after (modifyFirst (fun other => other.id == sale.id) close sales)
      (removeContributions contributions sale.id) := by
  have member : sale ∈ sales := List.mem_of_find?_eq_some found
  have changed : ∀ other, other ∈ modifyFirst (fun other => other.id == sale.id) close sales ↔
      other ∈ sales ∧ other.id ≠ sale.id ∨ other = close sale :=
    fun other => mem_modifyFirst_iff before.nodup found
  refine
    { ids := ?_, tokens := ?_, collected := ?_, capped := ?_, known := ?_, symbols := ?_,
      researched := ?_, frozen := ?_ }
  · rw [map_modifyFirst fun row => (same row).1, length_modifyFirst, before.ids]
  · refine forall_modifyFirst before.tokens fun row _ tokens => ?_
    rw [(same row).2.2.1]
    exact tokens
  · intro other isSale otherPending symbol
    rcases (changed other).mp isSale with ⟨old, differs⟩ | rfl
    · rw [toward_removeContributions differs]
      exact before.collected other old otherPending symbol
    · exact absurd otherPending ended
  · intro other isSale otherPending
    rcases (changed other).mp isSale with ⟨old, differs⟩ | rfl
    · exact before.capped other old otherPending
    · exact absurd otherPending ended
  · intro contribution remains
    obtain ⟨old, differs⟩ := mem_removeContributions remains
    obtain ⟨other, isSale, own, otherPending⟩ := before.known contribution old
    exact ⟨other, (changed other).mpr (.inl ⟨isSale, own ▸ differs⟩), own, otherPending⟩
  · intro contribution remains other isSale own
    obtain ⟨old, _⟩ := mem_removeContributions remains
    rcases (changed other).mp isSale with ⟨isSale, _⟩ | rfl
    · exact before.symbols contribution old other isSale own
    · rw [(same sale).2.2.2]
      exact before.symbols contribution old sale member ((same sale).1.symm.trans own)
  · refine forall_modifyFirst before.researched fun row _ researched => ?_
    rw [(same row).2.1]
    exact researched
  · intro owner symbol
    rw [thawed, before.frozen, total_modifyFirst _ found]
    have after : (close sale).freezes registry owner symbol = 0 := if_neg fun both => ended both.1
    rw [after]
    simp only [TokenSale.freezes, owned, Option.some.injEq, pending, true_and]
    omega

end Close

/-- A sale is closed: it ends, its tokens are unfrozen and the contributions are paid out. -/
theorem closeSale_posted {sale : TokenSale} {close : TokenSale → TokenSale}
    {balances : List Balance} {change : AssetSymbol → Int} {group : Name}
    (found : state.sales.find? (fun other => other.id == sale.id) = some sale)
    (pending : sale.Pending) (ended : ¬ (close sale).Pending)
    (same : ∀ row, (close row).id = row.id ∧ (close row).researchId = row.researchId ∧
      (close row).securityTokensOnSale = row.securityTokensOnSale ∧
      (close row).hardCap = row.hardCap)
    (owned : state.registry.groupOf sale.researchId = some group)
    (shifted : Shifted (grounds state) change state.balances balances)
    (thawed : ∀ owner symbol, frozen balances owner symbol =
      frozen state.balances owner symbol - (if group = owner then sale.offered symbol else 0)) :
    Posted kept (fun symbol => change symbol -
        total (Contribution.toward sale.id symbol) state.contributions) state
      { state with
        sales := modifyFirst (fun other => other.id == sale.id) close state.sales
        contributions := removeContributions state.contributions sale.id
        balances } := by
  constructor
  · intro sound
    exact { sound with
      solvent := shifted.solvent sound.solvent
      thawed := shifted.thawed sound.thawed
      distinct := shifted.distinct sound.distinct
      sales := sound.sales.closed found pending ended same owned thawed }
  · intro sound other isSale otherEnded
    refine (mem_modifyFirst_iff sound.sales.nodup found).mpr (.inl ⟨isSale, fun own => ?_⟩)
    have identical : other = sale := List.inj_on_of_nodup_map sound.sales.nodup isSale
      (List.mem_of_find?_eq_some found) own
    exact otherEnded (identical ▸ pending)
  · intro _ symbol
    have sum := shifted.held symbol
    have rest := total_removeContributions state.contributions sale.id symbol
    simp only [surplus, held, outstanding]
    omega
  · intro _ aspect _ before
    cases aspect with
    | reserved => exact before
    | counted => exact { before with elected := before.elected }
    | rated => exact { before with tokens := before.tokens }
    | rooted =>
      have known := shifted.owned (Rooted.ownedBy state)
      exact { before with
        balances := fun balance member => known balance member before
        contributions := fun contribution member =>
          before.contributions contribution (mem_removeContributions member).1 }
    | coreOnly =>
      exact { before with
        contributions := fun contribution member =>
          before.contributions contribution (mem_removeContributions member).1 }
    | awarded _ _ => exact before

theorem getResearchById_group (state : State) {id : Nat} {research : Research}
    (got : state.getResearchById id = .ok research) :
    state.registry.groupOf id = some research.researchGroup ∧
      ∀ symbol, grounds state research.researchGroup symbol := by
  have found := expect_ok_iff.mp got
  refine ⟨?_, fun symbol rooted => rooted.researches research (List.mem_of_find?_eq_some found)⟩
  rw [Registry.groupOf, found, Option.map_some]

theorem getResearchGroup_grounds (state : State) {id : Nat} {group : ResearchGroup}
    (got : state.getResearchGroup id = .ok group) (symbol : AssetSymbol) :
    grounds state group.account symbol :=
  fun rooted => (rooted.groups group (List.mem_of_find?_eq_some (expect_ok_iff.mp got))).1

/-- The states in which a sale is paid out: the sale has ended, and the last contribution
    may be in already. -/
structure Ending (state : State) (sale : TokenSale) (close : TokenSale → TokenSale)
    (contributions : List Contribution) : Prop where
  found : state.sales.find? (fun other => other.id == sale.id) = some sale
  pending : sale.Pending
  ended : ¬ (close sale).Pending
  same : ∀ row, (close row).id = row.id ∧ (close row).researchId = row.researchId ∧
    (close row).securityTokensOnSale = row.securityTokensOnSale ∧ (close row).hardCap = row.hardCap
  owners : ∀ contribution ∈ contributionsTo contributions sale.id,
    ∀ symbol, grounds state contribution.owner symbol
  others : removeContributions contributions sale.id =
    removeContributions state.contributions sale.id

variable {sale : TokenSale} {close : TokenSale → TokenSale} {contributions : List Contribution}
variable {balances : List Balance} {spent : AssetSymbol → Int} {percentOf : Int → Int → Int}

theorem Ending.lookup (ending : Ending state sale close contributions) {found : TokenSale}
    (got : getResearchTokenSaleById
      (modifyFirst (fun other => other.id == sale.id) close state.sales) sale.id = .ok found) :
    found = close sale := by
  have carries : ((close sale).id == sale.id) = true := by simp [(ending.same sale).1]
  have changed : (modifyFirst (fun other => other.id == sale.id) close state.sales).find?
      (fun other => other.id == sale.id) = some (close sale) :=
    find?_modifyFirst ending.found carries
  exact Option.some.inj ((expect_ok_iff.mp got).symm.trans changed)

/-- The tokens go to the contributors and the funds to the group. -/
theorem finishResearchTokenSale_posted (ending : Ending state sale close contributions)
    (moved : Moved (grounds state) spent state.balances balances)
    (finished : finishResearchTokenSale percentOf
      { state with
        sales := modifyFirst (fun other => other.id == sale.id) close state.sales
        contributions
        balances } sale.id = .ok next) :
    Posted kept (fun symbol => spent symbol + (close sale).totalAmount.under symbol -
      total (Contribution.toward sale.id symbol) state.contributions) state next := by
  apply Posted.of_sound
  intro sound
  simp only [finishResearchTokenSale, bind_ok_iff, pure_ok_iff] at finished
  obtain ⟨found, got, research, gotResearch, group, gotGroup, unfrozen, unfroze, distributed,
    paidTokens, final, paidFunds, rfl⟩ := finished
  obtain rfl := ending.lookup got
  obtain ⟨_, sameResearch, sameTokens, _⟩ := ending.same sale
  obtain ⟨owned, groupMay⟩ := getResearchById_group state gotResearch
  rw [sameResearch] at owned
  have offerable : Offerable (close sale).securityTokensOnSale := by
    rw [sameTokens]
    exact sound.sales.tokens sale (List.mem_of_find?_eq_some ending.found)
  obtain ⟨shifted, thawed⟩ := unfreezeTokens_shifted (grounds state) offerable unfroze
  have tokens := distributeTokens_moved groupMay ending.owners paidTokens
  have funds := adjustAccountBalance_moved (grounds state)
    (.inl (getResearchGroup_grounds state gotGroup _)) paidFunds
  have shiftedAll := ((moved.toShifted.trans shifted).trans tokens.toShifted).trans funds.toShifted
  have closed : Posted kept _ state _ := closeSale_posted ending.found ending.pending ending.ended
    ending.same owned shiftedAll (by
      intro owner symbol
      rw [funds.frozen, tokens.frozen, thawed, moved.frozen, sameTokens]
      rfl)
  rw [ending.others]
  refine closed.congr fun _ symbol => ?_
  omega

/-- The contributions go back to the contributors. -/
theorem refundResearchTokenSale_posted (ending : Ending state sale close state.contributions)
    (refunded : refundResearchTokenSale
      { state with sales := modifyFirst (fun other => other.id == sale.id) close state.sales }
      sale.id = .ok next) :
    Posted kept (fun _ => 0) state next := by
  apply Posted.of_sound
  intro sound
  simp only [refundResearchTokenSale, bind_ok_iff, pure_ok_iff] at refunded
  obtain ⟨found, got, research, gotResearch, unfrozen, unfroze, final, paid, rfl⟩ := refunded
  obtain rfl := ending.lookup got
  obtain ⟨_, sameResearch, sameTokens, _⟩ := ending.same sale
  obtain ⟨owned, _⟩ := getResearchById_group state gotResearch
  rw [sameResearch] at owned
  have offerable : Offerable (close sale).securityTokensOnSale := by
    rw [sameTokens]
    exact sound.sales.tokens sale (List.mem_of_find?_eq_some ending.found)
  obtain ⟨shifted, thawed⟩ := unfreezeTokens_shifted (grounds state) offerable unfroze
  have refunds := refund_moved ending.owners paid
  have closed : Posted kept _ state _ := closeSale_posted ending.found ending.pending ending.ended
    ending.same owned (shifted.trans refunds.toShifted) (by
      intro owner symbol
      rw [refunds.frozen, thawed, sameTokens]
      rfl)
  refine closed.congr fun _ symbol => ?_
  rw [total_contributionsTo]
  omega

/-- What a sale that goes on keeps, and how the contributions to it change with it. -/
structure Advance (sale : TokenSale) (change : TokenSale → TokenSale)
    (before after : List Contribution) : Prop where
  pending : (change sale).Pending
  same : ∀ row, (change row).id = row.id ∧ (change row).researchId = row.researchId ∧
    (change row).securityTokensOnSale = row.securityTokensOnSale ∧
    (change row).hardCap = row.hardCap
  capped : (change sale).totalAmount.symbol = sale.hardCap.symbol ∧
    (change sale).totalAmount.amount < sale.hardCap.amount
  collected : ∀ symbol, total (Contribution.toward sale.id symbol) after =
    (change sale).totalAmount.under symbol
  others : ∀ other symbol, other ≠ sale.id →
    total (Contribution.toward other symbol) after =
      total (Contribution.toward other symbol) before
  members : ∀ contribution ∈ after, contribution ∈ before ∨
    contribution.researchTokenSaleId = sale.id ∧ contribution.amount.symbol = sale.hardCap.symbol

theorem SalesKept.advance {registry : Registry} {held : List Balance} {sales : List TokenSale}
    {given : List Contribution} {change : TokenSale → TokenSale}
    (before : SalesKept registry held sales given)
    (found : sales.find? (fun other => other.id == sale.id) = some sale) (pending : sale.Pending)
    (step : Advance sale change given contributions) :
    SalesKept registry held (modifyFirst (fun other => other.id == sale.id) change sales)
      contributions := by
  have member : sale ∈ sales := List.mem_of_find?_eq_some found
  have changed : ∀ other, other ∈ modifyFirst (fun other => other.id == sale.id) change sales ↔
      other ∈ sales ∧ other.id ≠ sale.id ∨ other = change sale :=
    fun other => mem_modifyFirst_iff before.nodup found
  obtain ⟨sameId, sameResearch, sameTokens, sameCap⟩ := step.same sale
  refine
    { ids := ?_, tokens := ?_, collected := ?_, capped := ?_, known := ?_, symbols := ?_,
      researched := ?_, frozen := ?_ }
  · rw [map_modifyFirst fun row => (step.same row).1, length_modifyFirst, before.ids]
  · refine forall_modifyFirst before.tokens fun row _ tokens => ?_
    rw [(step.same row).2.2.1]
    exact tokens
  · intro other isSale otherPending symbol
    rcases (changed other).mp isSale with ⟨old, differs⟩ | rfl
    · rw [step.others other.id symbol differs]
      exact before.collected other old otherPending symbol
    · rw [sameId]
      exact step.collected symbol
  · intro other isSale otherPending
    rcases (changed other).mp isSale with ⟨old, differs⟩ | rfl
    · exact before.capped other old otherPending
    · rw [sameCap]
      exact step.capped
  · intro contribution isIn
    rcases step.members contribution isIn with old | ⟨own, _⟩
    · obtain ⟨other, isSale, own, otherPending⟩ := before.known contribution old
      by_cases this : other.id = sale.id
      · exact ⟨change sale, (changed _).mpr (.inr rfl), sameId.trans (this.symm.trans own),
          step.pending⟩
      · exact ⟨other, (changed other).mpr (.inl ⟨isSale, this⟩), own, otherPending⟩
    · exact ⟨change sale, (changed _).mpr (.inr rfl), sameId.trans own.symm, step.pending⟩
  · intro contribution isIn other isSale own
    rcases step.members contribution isIn with old | ⟨ownSale, symbol⟩
    · rcases (changed other).mp isSale with ⟨isSale, _⟩ | rfl
      · exact before.symbols contribution old other isSale own
      · rw [sameCap]
        exact before.symbols contribution old sale member (sameId.symm.trans own)
    · rcases (changed other).mp isSale with ⟨_, differs⟩ | rfl
      · exact absurd (own.trans ownSale) differs
      · rw [sameCap]
        exact symbol
  · refine forall_modifyFirst before.researched fun row _ researched => ?_
    rw [(step.same row).2.1]
    exact researched
  · intro owner symbol
    rw [before.frozen, total_modifyFirst _ found]
    have frozenSame : (change sale).freezes registry owner symbol =
        sale.freezes registry owner symbol := by
      simp only [TokenSale.freezes, pending, step.pending, sameResearch, TokenSale.offered,
        sameTokens]
    omega

/-- A sale goes on, and tokens come into the ledger with the contributions to it. -/
theorem advanceSale_posted {change : TokenSale → TokenSale}
    (found : state.sales.find? (fun other => other.id == sale.id) = some sale)
    (pending : sale.Pending) (step : Advance sale change state.contributions contributions)
    (owners : ∀ contribution ∈ contributions, contribution ∈ state.contributions ∨
      grounds state contribution.owner deipSymbol)
    (core : kept .coreOnly → ∀ contribution ∈ contributions, contribution ∈ state.contributions ∨
      contribution.amount.symbol = deipSymbol) :
    Posted kept (fun symbol =>
        total (fun contribution => contribution.amount.under symbol) contributions -
          total (fun contribution => contribution.amount.under symbol) state.contributions) state
      { state with
        sales := modifyFirst (fun other => other.id == sale.id) change state.sales
        contributions } where
  sound sound := { sound with sales := sound.sales.advance found pending step }
  closed sound other isSale otherEnded := by
    refine (mem_modifyFirst_iff sound.sales.nodup found).mpr (.inl ⟨isSale, fun own => ?_⟩)
    have identical : other = sale := List.inj_on_of_nodup_map sound.sales.nodup isSale
      (List.mem_of_find?_eq_some found) own
    exact otherEnded (identical ▸ pending)
  surplus _ symbol := by
    simp only [surplus, held, outstanding]
    omega
  holds _ aspect keeps before := by
    cases aspect with
    | reserved => exact before
    | counted => exact { before with elected := before.elected }
    | rated => exact { before with tokens := before.tokens }
    | rooted =>
      refine { before with contributions := fun contribution member => ?_ }
      rcases owners contribution member with old | known
      · exact before.contributions contribution old
      · exact known before
    | coreOnly =>
      refine { before with contributions := fun contribution member => ?_ }
      rcases core keeps contribution member with old | symbol
      · exact before.contributions contribution old
      · exact symbol
    | awarded _ _ => exact before

/-- A sale becomes active. -/
theorem activateSale_posted
    (found : state.sales.find? (fun other => other.id == sale.id) = some sale)
    (pending : sale.Pending) :
    Posted kept (fun _ => 0) state
      { state with sales := updateStatus state.sales sale.id .active } := by
  apply Posted.of_sound
  intro sound
  have member := List.mem_of_find?_eq_some found
  have step : Advance sale (fun sale => { sale with status := .active }) state.contributions
      state.contributions :=
    { pending := .inl rfl
      same := fun _ => ⟨rfl, rfl, rfl, rfl⟩
      capped := sound.sales.capped sale member pending
      collected := sound.sales.collected sale member pending
      others := fun _ _ _ => rfl
      members := fun _ isIn => .inl isIn }
  have advanced : Posted kept _ state _ := advanceSale_posted found pending step
    (fun _ isIn => .inl isIn) (fun _ _ isIn => .inl isIn)
  exact advanced.congr fun _ _ => sub_self _

theorem processResearchTokenSale_posted {id : Nat}
    (processed : processResearchTokenSale percentOf state id = .ok next) :
    Posted kept (fun _ => 0) state next := by
  rw [processResearchTokenSale, bind_ok_iff] at processed
  obtain ⟨sale, got, processed⟩ := processed
  have found := expect_ok_iff.mp got
  have own : sale.id = id := by simpa using List.find?_some found
  subst own
  split at processed
  · rename_i due
    have pending : sale.Pending := .inl due.2
    have ending (status : SaleStatus) (ended : ¬ (status = .active ∨ status = .inactive)) :
        Ending state sale (fun sale => { sale with status }) state.contributions :=
      ⟨found, pending, ended, fun _ => ⟨rfl, rfl, rfl, rfl⟩, fun contribution member symbol rooted =>
        rooted.contributions contribution (List.mem_of_mem_filter member), rfl⟩
    rw [bind_ok_iff] at processed
    obtain ⟨missed, _, processed⟩ := processed
    split at processed
    · exact refundResearchTokenSale_posted (ending .expired (by decide)) processed
    · apply Posted.of_sound
      intro sound
      have finished : Posted kept _ state next :=
        finishResearchTokenSale_posted (ending .finished (by decide))
          (Moved.refl (grounds state) state.balances) processed
      refine finished.congr fun _ symbol => ?_
      rw [sound.sales.collected sale (List.mem_of_find?_eq_some found) pending symbol]
      dsimp only
      omega
  · split at processed
    · rename_i waiting
      rw [pure_ok_iff] at processed
      subst processed
      exact activateSale_posted found (.inr waiting.2.2)
    · rw [pure_ok_iff] at processed
      exact processed ▸ Posted.refl kept state

theorem processResearchTokenSales_posted
    (processed : processResearchTokenSales percentOf state = .ok next) :
    Posted kept (fun _ => 0) state next := by
  refine foldlM_invariant (fun _ (reached : State) => Posted kept (fun _ => 0) state reached) ?_
    (Posted.refl kept state) processed
  intro id rest reached after before stepped
  exact (before.trans (processResearchTokenSale_posted stepped)).congr fun _ _ => add_zero 0

/-- A new sale starts without contributions, and what it offers is frozen. -/
theorem SalesKept.append {registry : Registry} {held after : List Balance} {sales : List TokenSale}
    {given : List Contribution} {group : Name} (before : SalesKept registry held sales given)
    (offerable : Offerable sale.securityTokensOnSale)
    (capped : sale.totalAmount.symbol = sale.hardCap.symbol ∧
      sale.totalAmount.amount < sale.hardCap.amount)
    (owned : registry.groupOf sale.researchId = some group)
    (new : sale.id = sales.length ∧ sale.totalAmount.amount = 0 ∧ sale.Pending)
    (froze : ∀ owner symbol, Ledger.frozen after owner symbol =
      Ledger.frozen held owner symbol + (if group = owner then sale.offered symbol else 0)) :
    SalesKept registry after (sales ++ [sale]) given := by
  obtain ⟨number, empty, pending⟩ := new
  have older : ∀ other ∈ sales, other.id ≠ sale.id := by
    intro other isSale
    have listed : other.id ∈ sales.map TokenSale.id := List.mem_map_of_mem isSale
    rw [before.ids, List.mem_range] at listed
    omega
  refine
    { ids := ?_, tokens := ?_, collected := ?_, capped := ?_, known := ?_, symbols := ?_,
      researched := ?_, frozen := ?_ }
  · rw [List.map_append, before.ids, List.map_singleton, number, List.length_append,
      List.length_singleton, List.range_succ]
  · exact forall_append_singleton before.tokens offerable
  · refine forall_append_singleton before.collected fun _ symbol => ?_
    rw [Asset.under, empty, ite_self]
    apply total_eq_zero
    intro contribution isIn
    obtain ⟨other, isSale, own, _⟩ := before.known contribution isIn
    exact if_neg fun this => older other isSale (own.trans this)
  · exact forall_append_singleton before.capped fun _ => capped
  · intro contribution isIn
    obtain ⟨other, isSale, own⟩ := before.known contribution isIn
    exact ⟨other, List.mem_append_left _ isSale, own⟩
  · intro contribution isIn
    refine forall_append_singleton (before.symbols contribution isIn) fun this => ?_
    obtain ⟨other, isSale, own, _⟩ := before.known contribution isIn
    exact absurd (own.trans this.symm) (older other isSale)
  · exact forall_append_singleton before.researched ⟨group, owned⟩
  · intro owner symbol
    rw [froze, before.frozen, total_append, total_cons, total_nil, TokenSale.freezes, owned]
    simp only [pending, Option.some.injEq, true_and]
    omega

theorem CreateResearchTokenSaleOperation.apply_posted {op : CreateResearchTokenSaleOperation}
    (valid : op.validate = .ok ()) (applied : op.apply state = .ok next) :
    Posted kept (fun _ => 0) state next := by
  simp only [validate, bind_ok_iff, require_ok_iff, forM_ok_iff] at valid
  obtain ⟨_, _, _, positive, _, softCap, _, hardCap, _, sameSymbol, _⟩ := valid
  simp only [apply, createResearchTokenSale, bind_ok_iff, require_ok_iff, forM_ok_iff,
    pure_ok_iff] at applied
  obtain ⟨_, _, _, _, group, _, research, gotResearch, _, checked, _, _, _, _, balances, froze,
    sales, ⟨_, _, _, _, _, _, rfl⟩, rfl⟩ := applied
  have foundResearch := expect_ok_iff.mp gotResearch
  have isResearch := List.mem_of_find?_eq_some foundResearch
  have offerable : Sound state → Offerable op.securityTokensOnSale := by
    intro sound token member
    refine ⟨positive token member, fun core => ?_⟩
    have check := checked token member
    simp only [checkToken, bind_ok_iff, require_ok_iff] at check
    obtain ⟨asset, gotAsset, _, security, _⟩ := check
    obtain ⟨symbol, isAsset⟩ := getAssetBySymbol_symbol gotAsset
    have basic := sound.assets.core asset isAsset (symbol.trans core)
    exact absurd (security.symm.trans basic) (by decide)
  apply Posted.of_sound
  intro sound
  obtain ⟨shifted, frozenMore⟩ := freezeTokens_shifted (grounds state) (offerable sound) froze
  have owned : state.registry.groupOf research.id = some research.researchGroup := by
    rw [Registry.groupOf, find?_of_nodup sound.researches.nodup isResearch, Option.map_some]
  constructor
  · intro _
    refine { sound with
      solvent := shifted.solvent sound.solvent
      thawed := shifted.thawed sound.thawed
      distinct := shifted.distinct sound.distinct
      sales := ?_ }
    exact sound.sales.append (offerable sound) ⟨sameSymbol, hardCap⟩ owned
      ⟨rfl, rfl, .inr rfl⟩ frozenMore
  · exact fun _ _ member _ => List.mem_append_left _ member
  · intro _ symbol
    have sum := shifted.held symbol
    simp only [surplus, held, outstanding]
    omega
  · intro _ aspect _ before
    cases aspect with
    | reserved => exact before
    | counted => exact { before with elected := before.elected }
    | rated => exact { before with tokens := before.tokens }
    | rooted =>
      have known := shifted.owned (Rooted.ownedBy state)
      exact { before with balances := fun balance member => known balance member before }
    | coreOnly => exact { before with vestings := before.vestings }
    | awarded _ _ => exact before

/-- What a contribution changes. -/
structure Contributed (id : Nat) (owner : Name) (amount : Asset)
    (before after : List Contribution) : Prop where
  toward : ∀ other symbol, total (Contribution.toward other symbol) after =
    total (Contribution.toward other symbol) before +
      (if id = other then amount.under symbol else 0)
  held : ∀ symbol, total (fun contribution => contribution.amount.under symbol) after =
    total (fun contribution => contribution.amount.under symbol) before + amount.under symbol
  others : removeContributions after id = removeContributions before id
  members : ∀ contribution ∈ after, contribution ∈ before ∨
    contribution.researchTokenSaleId = id ∧ contribution.owner = owner ∧
      contribution.amount.symbol = amount.symbol

theorem contribute_contributed {before after : List Contribution} {id : Nat} {owner : Name}
    {amount : Asset} (contributed : contribute before id owner amount = .ok after) :
    Contributed id owner amount before after := by
  unfold contribute at contributed
  split at contributed
  · rename_i existing found
    simp only [bind_ok_iff, pure_ok_iff, Asset.add_ok_iff] at contributed
    obtain ⟨sum, ⟨same, rfl⟩, rfl⟩ := contributed
    have key := List.find?_some found
    simp only [Contribution.belongs, Bool.and_eq_true, beq_iff_eq] at key
    refine ⟨?_, ?_, ?_, ?_⟩
    · intro other symbol
      rw [total_modifyFirst _ found]
      simp only [Contribution.toward, key.2, Asset.under, same]
      split_ifs <;> omega
    · intro symbol
      rw [total_modifyFirst _ found]
      simp only [Asset.under, same]
      split_ifs <;> omega
    · apply filter_modifyFirst
      intro row hit
      simp only [Contribution.belongs, Bool.and_eq_true, beq_iff_eq] at hit
      simp [hit.2]
    · intro contribution member
      rcases mem_modifyFirst member with old | ⟨row, hit, rfl⟩
      · exact .inl old
      · have identical : row = existing := Option.some.inj (hit.symm.trans found)
        subst identical
        exact .inr ⟨key.2, key.1, same⟩
  · rw [pure_ok_iff] at contributed
    subst contributed
    refine ⟨?_, ?_, ?_, ?_⟩
    · intro other symbol
      simp [Contribution.toward]
    · intro symbol
      simp
    · simp [removeContributions]
    · exact forall_append_singleton (fun _ => .inl) (.inr ⟨rfl, rfl, rfl⟩)

/-- A contribution moves tokens from a balance to the sale, and through it to the group
    when the hard cap is reached. -/
theorem ContributeToTokenSaleOperation.apply_posted {op : ContributeToTokenSaleOperation}
    (core : kept .coreOnly → op.amount.symbol = deipSymbol)
    (applied : op.apply percentOf state = .ok next) : Posted kept (fun _ => 0) state next := by
  simp only [apply, collectFunds, bind_ok_iff, require_ok_iff, expect_ok_iff, pure_ok_iff,
    Asset.add_ok_iff] at applied
  obtain ⟨_, exists_, sale, foundExternal, _, _, _, active, _, _, _, _, _, _, sum, ⟨same, rfl⟩,
    reached, compared, amount, clipped, contributions, contributed, balances, paid, sales,
    ⟨found, got, totalAmount, ⟨sameAgain, rfl⟩, rfl⟩, applied⟩ := applied
  apply Posted.of_sound
  intro sound
  have isSale := List.mem_of_find?_eq_some foundExternal
  have pending : sale.Pending := .inl active
  have foundSale := find?_of_nodup sound.sales.nodup isSale
  obtain rfl : found = sale := Option.some.inj ((expect_ok_iff.mp got).symm.trans foundSale)
  obtain ⟨capSymbol, below⟩ := sound.sales.capped found isSale pending
  have given := contribute_contributed contributed
  have known : ∀ symbol, grounds state op.contributor symbol :=
    fun _ _ => State.known_of_exists exists_
  have debited := adjustAccountBalance_moved (grounds state) (.inl (known _)) paid
  obtain ⟨_, compared⟩ := Asset.atLeast_ok_iff.mp compared
  have sum (other : AssetSymbol) : found.totalAmount.under other + amount.under other =
      (Asset.mk (found.totalAmount.amount + amount.amount) found.totalAmount.symbol).under other := by
    simp only [Asset.under, sameAgain]
    split <;> omega
  cases reached with
  | false =>
    obtain rfl : op.amount = amount := by simpa [amountToContribute, pure_ok_iff] using clipped
    obtain rfl := pure_ok_iff.mp applied
    have step : Advance found (fun sale => { sale with totalAmount :=
        ⟨found.totalAmount.amount + op.amount.amount, found.totalAmount.symbol⟩ })
        state.contributions contributions :=
      { pending := pending
        same := fun _ => ⟨rfl, rfl, rfl, rfl⟩
        capped := ⟨capSymbol, by simpa using compared⟩
        collected := fun symbol => by
          rw [given.toward, if_pos rfl, sound.sales.collected found isSale pending]
          exact sum symbol
        others := fun other symbol differs => by
          rw [given.toward, if_neg (Ne.symm differs), add_zero]
        members := fun contribution member => (given.members contribution member).imp_right
          fun own => ⟨own.1, own.2.2.trans (same.symm.trans capSymbol)⟩ }
    have funded : Posted kept _ { state with balances } _ :=
      advanceSale_posted foundSale pending step
        (by
          intro contribution member
          refine (given.members contribution member).imp_right ?_
          rintro ⟨_, owner, _⟩ _
          exact owner ▸ State.known_of_exists exists_)
        (by
          intro keeps contribution member
          refine (given.members contribution member).imp_right ?_
          rintro ⟨_, _, symbol⟩
          exact symbol.trans (core keeps))
    refine (debited.posted.trans funded).congr fun _ symbol => ?_
    rw [given.held, Asset.under_neg]
    dsimp only
    omega
  | true =>
    obtain ⟨_, rfl⟩ := Asset.sub_ok_iff.mp clipped
    have ending : Ending state found (fun sale => { sale with
        totalAmount := ⟨found.totalAmount.amount + (found.hardCap.amount - found.totalAmount.amount),
          found.totalAmount.symbol⟩
        status := .finished }) contributions :=
      { found := foundSale
        pending := pending
        ended := by simp [TokenSale.Pending]
        same := fun _ => ⟨rfl, rfl, rfl, rfl⟩
        owners := by
          intro contribution member symbol rooted
          rcases given.members contribution (List.mem_of_mem_filter member) with old | own
          · exact rooted.contributions contribution old
          · exact own.2.1 ▸ State.known_of_exists exists_
        others := given.others }
    simp only [updateStatus, if_true] at applied
    rw [modifyFirst_modifyFirst] at applied
    case carries => exact fun _ own => own
    have finished : Posted kept _ state next := finishResearchTokenSale_posted ending debited applied
    refine finished.congr fun _ symbol => ?_
    rw [sound.sales.collected found isSale pending, Asset.under_neg]
    have total := sum symbol
    dsimp only at total ⊢
    omega

end Books

end DeipChain.Ledger
