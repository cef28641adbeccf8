import DeipChain.Ledger.Objects

/-!
# Account balances and asset supplies

The services that own the balances and the assets. Every other part of the ledger
pays through `adjustAccountBalance`, which creates a missing balance and refuses to
overdraw one, or moves tokens between the free and the frozen side of a balance.

`Shifted` collects what a sequence of such steps does to the table of balances: how
much of each asset entered or left it, and which properties of the table it keeps.
`Moved` is for payments, which leave the frozen sides alone. Evaluators compose their
payments by `Moved.trans`.
-/
namespace DeipChain.Ledger

open DeipChain.Result DeipChain.Table

/-- `chainbase::database::get` throws this for a key that is not there. -/
def unknownKey : String := "unknown key"

/-- A creation that repeats a unique key throws this. -/
def uniquenessViolated : String :=
  "could not insert object, most likely a uniqueness constraint was violated"

/-- The key of `by_owner_and_asset_symbol`. -/
def Balance.belongs (owner : Name) (symbol : AssetSymbol) (balance : Balance) : Bool :=
  balance.owner == owner && balance.symbol == symbol

theorem Balance.belongs_iff {owner : Name} {symbol : AssetSymbol} {balance : Balance} :
    balance.belongs owner symbol = true ↔ balance.owner = owner ∧ balance.symbol = symbol := by
  simp [Balance.belongs]

/-! ## The balance service -/

def createAccountBalance (assets : List AssetObject) (balances : List Balance) (owner : Name)
    (symbol : AssetSymbol) (amount : Int) : Except String (List Balance) := do
  require (assets.any fun asset => asset.symbol == symbol) unknownKey
  require (balances.any (Balance.belongs owner symbol) = false) uniquenessViolated
  return balances ++ [{ owner, symbol, amount, frozenAmount := 0 }]

def accountBalanceExists (balances : List Balance) (owner : Name) (symbol : AssetSymbol) : Bool :=
  balances.any (Balance.belongs owner symbol)

def getAccountBalance (balances : List Balance) (owner : Name) (symbol : AssetSymbol) :
    Except String Balance :=
  expect (balances.find? (Balance.belongs owner symbol)) unknownKey

/-- The balances with one for the given owner and asset, empty if it is new. -/
def ensureAccountBalance (assets : List AssetObject) (balances : List Balance) (owner : Name)
    (symbol : AssetSymbol) : Except String (List Balance) :=
  if accountBalanceExists balances owner symbol then return balances
  else createAccountBalance assets balances owner symbol 0

def adjustAccountBalance (assets : List AssetObject) (balances : List Balance) (owner : Name)
    (delta : Asset) : Except String (List Balance) := do
  let balances ← ensureAccountBalance assets balances owner delta.symbol
  let balance ← getAccountBalance balances owner delta.symbol
  require (delta.amount < 0 → -delta.amount ≤ balance.amount)
    "Account ${1} does not have enough funds to transfer ${2}"
  return modifyFirst (Balance.belongs owner delta.symbol)
    (fun balance => { balance with amount := balance.amount + delta.amount }) balances

def freezeAccountBalance (balances : List Balance) (account : Name) (amount : Asset) :
    Except String (List Balance) := do
  let balance ← getAccountBalance balances account amount.symbol
  require (amount.amount ≤ balance.amount)
    "Security token balance (${1}) for account ${2} is not enough to freeze ${3}"
  return modifyFirst (Balance.belongs account amount.symbol)
    (fun balance => { balance with
      amount := balance.amount - amount.amount
      frozenAmount := balance.frozenAmount + amount.amount }) balances

def unfreezeAccountBalance (balances : List Balance) (account : Name) (amount : Asset) :
    Except String (List Balance) := do
  let balance ← getAccountBalance balances account amount.symbol
  require (amount.amount ≤ balance.frozenAmount)
    "Security token frozen balance (${1}) for account ${2} is not enough to unfreeze ${3}"
  return modifyFirst (Balance.belongs account amount.symbol)
    (fun balance => { balance with
      amount := balance.amount + amount.amount
      frozenAmount := balance.frozenAmount - amount.amount }) balances

/-- The block processes that pay withdrawn common tokens write to the balance
    object itself, without the checks of `adjustAccountBalance`. -/
def creditAccountBalance (balances : List Balance) (owner : Name) (delta : Asset) :
    Except String (List Balance) := do
  let _ ← getAccountBalance balances owner delta.symbol
  return modifyFirst (Balance.belongs owner delta.symbol)
    (fun balance => { balance with amount := balance.amount + delta.amount }) balances

/-! ## What payments do to the balances -/

/-- What a balance holds of an asset, frozen or not. -/
def Balance.held (symbol : AssetSymbol) (balance : Balance) : Int :=
  if balance.symbol = symbol then balance.amount + balance.frozenAmount else 0

/-- No balance is overdrawn, on either side. -/
def Solvent (balances : List Balance) : Prop :=
  ∀ balance ∈ balances, 0 ≤ balance.amount ∧ 0 ≤ balance.frozenAmount

/-- No core token is frozen. -/
def Thawed (balances : List Balance) : Prop :=
  ∀ balance ∈ balances, balance.symbol = deipSymbol → balance.frozenAmount = 0

/-- An owner has one balance of each asset. -/
def Distinct (balances : List Balance) : Prop :=
  (balances.map fun balance => (balance.owner, balance.symbol)).Nodup

/-- Every balance has an owner who may hold its asset. -/
def OwnedBy (may : Name → AssetSymbol → Prop) (balances : List Balance) : Prop :=
  ∀ balance ∈ balances, may balance.owner balance.symbol

/-- What a balance has frozen for an owner and an asset. -/
def Balance.frozenOf (owner : Name) (symbol : AssetSymbol) (balance : Balance) : Int :=
  if balance.belongs owner symbol then balance.frozenAmount else 0

/-- What an owner has frozen of an asset. -/
def frozen (balances : List Balance) (owner : Name) (symbol : AssetSymbol) : Int :=
  total (Balance.frozenOf owner symbol) balances

/-- Steps that bring `change symbol` of each asset into the balances. -/
structure Shifted (may : Name → AssetSymbol → Prop) (change : AssetSymbol → Int)
    (before after : List Balance) : Prop where
  held : ∀ symbol, total (Balance.held symbol) after =
    total (Balance.held symbol) before + change symbol
  solvent : Solvent before → Solvent after
  thawed : Thawed before → Thawed after
  distinct : Distinct before → Distinct after
  owned : OwnedBy may before → OwnedBy may after

/-- Payments that bring `change symbol` of each asset into the balances. -/
structure Moved (may : Name → AssetSymbol → Prop) (change : AssetSymbol → Int)
    (before after : List Balance) : Prop extends Shifted may change before after where
  frozen : ∀ owner symbol, frozen after owner symbol = frozen before owner symbol

section Composition

variable {may : Name → AssetSymbol → Prop} {change other : AssetSymbol → Int}
variable {before middle after : List Balance}

theorem Shifted.refl (may : Name → AssetSymbol → Prop) (balances : List Balance) :
    Shifted may (fun _ => 0) balances balances :=
  ⟨fun _ => (add_zero _).symm, id, id, id, id⟩

theorem Shifted.trans (first : Shifted may change before middle)
    (second : Shifted may other middle after) :
    Shifted may (fun symbol => change symbol + other symbol) before after where
  held symbol := by rw [second.held, first.held, add_assoc]
  solvent := second.solvent ∘ first.solvent
  thawed := second.thawed ∘ first.thawed
  distinct := second.distinct ∘ first.distinct
  owned := second.owned ∘ first.owned

theorem Shifted.congr (shifted : Shifted may change before after)
    (same : ∀ symbol, change symbol = other symbol) : Shifted may other before after :=
  ⟨fun symbol => same symbol ▸ shifted.held symbol, shifted.solvent, shifted.thawed,
    shifted.distinct, shifted.owned⟩

theorem Moved.refl (may : Name → AssetSymbol → Prop) (balances : List Balance) :
    Moved may (fun _ => 0) balances balances :=
  ⟨Shifted.refl may balances, fun _ _ => rfl⟩

theorem Moved.trans (first : Moved may change before middle) (second : Moved may other middle after) :
    Moved may (fun symbol => change symbol + other symbol) before after :=
  ⟨first.toShifted.trans second.toShifted,
    fun owner symbol => (second.frozen owner symbol).trans (first.frozen owner symbol)⟩

theorem Moved.congr (moved : Moved may change before after)
    (same : ∀ symbol, change symbol = other symbol) : Moved may other before after :=
  ⟨moved.toShifted.congr same, moved.frozen⟩

end Composition

/-- A new empty balance moves nothing. -/
theorem createAccountBalance_moved (may : Name → AssetSymbol → Prop) {assets : List AssetObject}
    {balances after : List Balance} {owner : Name} {symbol : AssetSymbol}
    (owned : may owner symbol)
    (created : createAccountBalance assets balances owner symbol 0 = .ok after) :
    Moved may (fun _ => 0) balances after := by
  simp only [createAccountBalance, bind_ok_iff, require_ok_iff, pure_ok_iff] at created
  obtain ⟨_, _, _, fresh, rfl⟩ := created
  refine ⟨⟨?_, ?_, ?_, ?_, ?_⟩, ?_⟩
  · intro other
    simp [Balance.held]
  · intro solvent
    exact forall_append_singleton solvent ⟨Int.le_refl 0, Int.le_refl 0⟩
  · intro thawed
    exact forall_append_singleton thawed fun _ => rfl
  · intro distinct
    refine nodup_append_fresh distinct ?_
    intro other member same
    rw [List.any_eq_false] at fresh
    exact fresh other member
      (Balance.belongs_iff.mpr ⟨congrArg Prod.fst same, congrArg Prod.snd same⟩)
  · intro ownedBefore
    exact forall_append_singleton ownedBefore owned
  · intro other asset
    simp [frozen, Balance.frozenOf]

/-- Rewriting one balance shifts what that balance changes, and keeps the properties
    of the table that the new balance has. -/
theorem modifyBalance_shifted (may : Name → AssetSymbol → Prop) (change : Balance → Balance) (delta : Int)
    {balances : List Balance} {owner : Name} {symbol : AssetSymbol} {balance : Balance}
    (found : balances.find? (Balance.belongs owner symbol) = some balance)
    (sameOwner : ∀ row, (change row).owner = row.owner)
    (sameSymbol : ∀ row, (change row).symbol = row.symbol)
    (moves : (change balance).amount + (change balance).frozenAmount =
      balance.amount + balance.frozenAmount + delta)
    (solvent : 0 ≤ balance.amount → 0 ≤ balance.frozenAmount →
      0 ≤ (change balance).amount ∧ 0 ≤ (change balance).frozenAmount)
    (thawed : symbol = deipSymbol → balance.frozenAmount = 0 → (change balance).frozenAmount = 0) :
    Shifted may (fun other => if symbol = other then delta else 0) balances
      (modifyFirst (Balance.belongs owner symbol) change balances) := by
  have key := Balance.belongs_iff.mp (List.find?_some found)
  constructor
  · intro other
    rw [total_modifyFirst _ found]
    simp only [Balance.held, sameSymbol, key.2]
    split <;> omega
  · intro before
    refine forall_modifyFirst before ?_
    intro row hit bounds
    have same : row = balance := Option.some.inj (hit.symm.trans found)
    exact same ▸ solvent (same ▸ bounds.1) (same ▸ bounds.2)
  · intro before
    refine forall_modifyFirst before ?_
    intro row hit frozen core
    have same : row = balance := Option.some.inj (hit.symm.trans found)
    subst same
    rw [sameSymbol, key.2] at core
    exact thawed core (frozen (key.2.trans core))
  · intro before
    unfold Distinct
    rw [map_modifyFirst (fun row => by rw [sameOwner, sameSymbol])]
    exact before
  · intro before
    refine forall_modifyFirst before ?_
    intro row _ owned
    rw [sameOwner, sameSymbol]
    exact owned

/-- Rewriting one balance changes what its owner has frozen by what that balance has. -/
theorem modifyBalance_frozen (change : Balance → Balance) (delta : Int) {balances : List Balance}
    {owner : Name} {symbol : AssetSymbol} {balance : Balance}
    (found : balances.find? (Balance.belongs owner symbol) = some balance)
    (sameKey : ∀ row key asset, (change row).belongs key asset = row.belongs key asset)
    (freezes : (change balance).frozenAmount = balance.frozenAmount + delta)
    (other : Name) (asset : AssetSymbol) :
    frozen (modifyFirst (Balance.belongs owner symbol) change balances) other asset =
      frozen balances other asset + (if owner = other ∧ symbol = asset then delta else 0) := by
  obtain ⟨ownerKey, symbolKey⟩ := Balance.belongs_iff.mp (List.find?_some found)
  rw [frozen, total_modifyFirst _ found, frozen]
  simp only [Balance.frozenOf, sameKey, Balance.belongs_iff, ownerKey, symbolKey]
  split <;> omega

/-- A payment leaves the frozen sides alone. -/
theorem paid_frozen {delta : Int} {balances : List Balance} {owner : Name} {symbol : AssetSymbol}
    {balance : Balance} (found : balances.find? (Balance.belongs owner symbol) = some balance)
    (other : Name) (asset : AssetSymbol) :
    frozen (modifyFirst (Balance.belongs owner symbol)
      (fun balance => { balance with amount := balance.amount + delta }) balances) other asset =
      frozen balances other asset := by
  have rewritten := modifyBalance_frozen
    (fun balance => { balance with amount := balance.amount + delta }) 0 found (fun _ _ _ => rfl)
    (add_zero _).symm other asset
  simpa using rewritten

/-- `adjustAccountBalance` brings exactly the given amount into the balances. -/
theorem adjustAccountBalance_moved (may : Name → AssetSymbol → Prop) {assets : List AssetObject}
    {balances after : List Balance} {owner : Name} {delta : Asset}
    (owned : may owner delta.symbol ∨ delta.amount < 0)
    (adjusted : adjustAccountBalance assets balances owner delta = .ok after) :
    Moved may delta.under balances after := by
  simp only [adjustAccountBalance, getAccountBalance, bind_ok_iff, require_ok_iff, expect_ok_iff,
    pure_ok_iff] at adjusted
  obtain ⟨middle, ensured, balance, found, _, funded, rfl⟩ := adjusted
  have written : Moved may delta.under middle (modifyFirst (Balance.belongs owner delta.symbol)
      (fun balance => { balance with amount := balance.amount + delta.amount }) middle) := by
    refine ⟨modifyBalance_shifted may _ delta.amount found (fun _ => rfl) (fun _ => rfl)
      (by dsimp only; omega) ?_ (fun _ frozen => frozen), paid_frozen found⟩
    intro amount frozen
    refine ⟨?_, frozen⟩
    dsimp only
    by_cases debit : delta.amount < 0
    · have := funded debit
      omega
    · omega
  unfold ensureAccountBalance at ensured
  split at ensured
  · rw [pure_ok_iff] at ensured
    exact ensured ▸ written
  · -- a balance created here is empty, so a debit of it would have failed
    have credited : may owner delta.symbol := by
      rcases owned with allowed | debit
      · exact allowed
      · simp only [createAccountBalance, bind_ok_iff, require_ok_iff, pure_ok_iff] at ensured
        obtain ⟨_, _, _, fresh, rfl⟩ := ensured
        have empty : balance.amount = 0 := by
          rw [List.find?_append, List.find?_eq_none.mpr (by simpa using fresh)] at found
          simp only [Option.none_or, List.find?_singleton] at found
          split at found
          · exact (Option.some.inj found) ▸ rfl
          · cases found
        have := funded debit
        omega
    have created := createAccountBalance_moved may credited ensured
    exact (created.trans written).congr fun symbol => zero_add _

theorem creditAccountBalance_moved (may : Name → AssetSymbol → Prop) {balances after : List Balance}
    {owner : Name} {delta : Asset} (positive : 0 ≤ delta.amount)
    (credited : creditAccountBalance balances owner delta = .ok after) :
    Moved may delta.under balances after := by
  simp only [creditAccountBalance, getAccountBalance, bind_ok_iff, expect_ok_iff,
    pure_ok_iff] at credited
  obtain ⟨balance, found, rfl⟩ := credited
  refine ⟨modifyBalance_shifted may _ delta.amount found (fun _ => rfl) (fun _ => rfl)
    (by dsimp only; omega) ?_ (fun _ frozen => frozen), paid_frozen found⟩
  intro amount frozen
  exact ⟨by dsimp only; omega, frozen⟩

/-- Freezing a part of a balance moves nothing. -/
theorem freezeAccountBalance_shifted (may : Name → AssetSymbol → Prop)
    {balances after : List Balance} {account : Name} {amount : Asset}
    (positive : 0 ≤ amount.amount) (foreign : amount.symbol ≠ deipSymbol)
    (froze : freezeAccountBalance balances account amount = .ok after) :
    Shifted may (fun _ => 0) balances after ∧ ∀ owner symbol, frozen after owner symbol =
      frozen balances owner symbol + (if account = owner then amount.under symbol else 0) := by
  simp only [freezeAccountBalance, getAccountBalance, bind_ok_iff, require_ok_iff, expect_ok_iff,
    pure_ok_iff] at froze
  obtain ⟨balance, found, _, enough, rfl⟩ := froze
  constructor
  · have shifted := modifyBalance_shifted may
      (fun balance => { balance with
        amount := balance.amount - amount.amount
        frozenAmount := balance.frozenAmount + amount.amount }) 0 found
      (fun _ => rfl) (fun _ => rfl) (by dsimp only; omega)
      (fun _ _ => ⟨by dsimp only; omega, by dsimp only; omega⟩) (fun core => absurd core foreign)
    exact shifted.congr fun symbol => ite_self 0
  · intro owner symbol
    have rewritten := modifyBalance_frozen
      (fun balance => { balance with
        amount := balance.amount - amount.amount
        frozenAmount := balance.frozenAmount + amount.amount }) amount.amount found
      (fun _ _ _ => rfl) rfl owner symbol
    rw [rewritten, Asset.under, ite_and]

theorem unfreezeAccountBalance_shifted (may : Name → AssetSymbol → Prop)
    {balances after : List Balance} {account : Name} {amount : Asset}
    (positive : 0 ≤ amount.amount) (foreign : amount.symbol ≠ deipSymbol)
    (unfroze : unfreezeAccountBalance balances account amount = .ok after) :
    Shifted may (fun _ => 0) balances after ∧ ∀ owner symbol, frozen after owner symbol =
      frozen balances owner symbol - (if account = owner then amount.under symbol else 0) := by
  simp only [unfreezeAccountBalance, getAccountBalance, bind_ok_iff, require_ok_iff, expect_ok_iff,
    pure_ok_iff] at unfroze
  obtain ⟨balance, found, _, enough, rfl⟩ := unfroze
  constructor
  · have shifted := modifyBalance_shifted may
      (fun balance => { balance with
        amount := balance.amount + amount.amount
        frozenAmount := balance.frozenAmount - amount.amount }) 0 found
      (fun _ => rfl) (fun _ => rfl) (by dsimp only; omega)
      (fun _ _ => ⟨by dsimp only; omega, by dsimp only; omega⟩) (fun core => absurd core foreign)
    exact shifted.congr fun symbol => ite_self 0
  · intro owner symbol
    have rewritten := modifyBalance_frozen
      (fun balance => { balance with
        amount := balance.amount + amount.amount
        frozenAmount := balance.frozenAmount - amount.amount }) (-amount.amount) found
      (fun _ _ _ => rfl) (sub_eq_add_neg _ _) owner symbol
    rw [rewritten, Asset.under, ite_and]
    split
    · split <;> omega
    · omega

end DeipChain.Ledger
