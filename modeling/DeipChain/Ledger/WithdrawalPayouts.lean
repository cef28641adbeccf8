import DeipChain.Ledger.Ballots
import DeipChain.Ledger.SaleShares

/-!
# What a withdrawal pays

A withdrawal is split by the routes of its account. Each automatic route locks its share again
for its account, each other route pays its share in core tokens, and the account gets the rest.
The share of a route is rounded down, so the shares never exceed the withdrawal as long as the
percentages do not exceed the whole.
-/
namespace DeipChain.Ledger

open DeipChain.Result DeipChain.Table

/-! ## Gains of accounts and balances -/

/-- A credit shows in one balance, on its free side. -/
theorem creditAccountBalance_free {balances after : List Balance} {owner : Name} {delta : Asset}
    (credits : creditAccountBalance balances owner delta = .ok after) (other : Name)
    (asset : AssetSymbol) :
    free after other asset =
        free balances other asset + entry owner delta.symbol delta.amount other asset ∧
      locked after other asset = locked balances other asset ∧
      accountBalanceExists after other asset = accountBalanceExists balances other asset := by
  simp only [creditAccountBalance, getAccountBalance, bind_ok_iff, expect_ok_iff,
    pure_ok_iff] at credits
  obtain ⟨balance, found, rfl⟩ := credits
  rw [Bool.eq_iff_iff, accountBalanceExists_iff, accountBalanceExists_iff, free, locked, entry,
    find?_modifyBalance other asset found (by exact fun _ => ⟨rfl, rfl⟩)]
  by_cases hit : other = owner ∧ asset = delta.symbol
  · obtain ⟨rfl, rfl⟩ := hit
    simp [free, locked, found]
  · simp [free, locked, hit]

theorem creditAccountBalance_succeeds {balances : List Balance} {owner : Name} {delta : Asset}
    (known : accountBalanceExists balances owner delta.symbol = true) :
    ∃ after, creditAccountBalance balances owner delta = .ok after := by
  obtain ⟨balance, found⟩ := accountBalanceExists_iff.mp known
  exact ⟨_, bind_ok_iff.mpr ⟨balance, expect_ok_iff.mpr found, rfl⟩⟩

theorem creditAccountBalance_known {balances after : List Balance} {owner : Name} {delta : Asset}
    (credits : creditAccountBalance balances owner delta = .ok after) :
    accountBalanceExists balances owner delta.symbol = true := by
  obtain ⟨balance, found, _⟩ := bind_ok_iff.mp credits
  exact accountBalanceExists_iff.mpr ⟨balance, expect_ok_iff.mp found⟩

/-- The accounts after each of them, by its place, has gained common tokens. -/
structure Gained (gains : Nat → Int) (before after : List Account) : Prop where
  length : after.length = before.length
  rows : ∀ (place : Nat) (row : Account), before[place]? = some row →
    ∃ later, after[place]? = some later ∧ later.id = row.id ∧ later.name = row.name ∧
      later.commonTokensBalance = row.commonTokensBalance + gains place

namespace Gained

variable {gains more : Nat → Int} {before middle after : List Account}

theorem trans (first : Gained gains before middle) (second : Gained more middle after) :
    Gained (fun place => gains place + more place) before after where
  length := second.length.trans first.length
  rows place row found := by
    obtain ⟨between, met, id, name, common⟩ := first.rows place row found
    obtain ⟨later, reached, sameId, sameName, gain⟩ := second.rows place between met
    refine ⟨later, reached, sameId.trans id, sameName.trans name, ?_⟩
    rw [gain, common, add_assoc]

theorem congr (gained : Gained gains before after) (same : ∀ place, gains place = more place) :
    Gained more before after where
  length := gained.length
  rows place row found := by
    rw [← same place]
    exact gained.rows place row found

/-- Votes gain nothing. -/
theorem of_unvoted (same : after.map Account.unvoted = before.map Account.unvoted) :
    Gained (fun _ => 0) before after where
  length := by simpa using congrArg List.length same
  rows place row found := by
    have column := congrArg (·[place]?) same
    simp only [List.getElem?_map, found, Option.map_some, Option.map_eq_some_iff] at column
    obtain ⟨later, reached, equal⟩ := column
    simp only [Account.unvoted, Account.terms, Account.voice, Prod.mk.injEq] at equal
    obtain ⟨⟨id, name, _, common, _⟩, _⟩ := equal
    exact ⟨later, reached, id, name, common.trans (add_zero _).symm⟩

theorem refl (accounts : List Account) : Gained (fun _ => 0) accounts accounts :=
  of_unvoted rfl

/-- The account at one place gains an amount. -/
theorem modify (listed : Listed before) {id : Nat} {account : Account} {amount : Int}
    (change : Account → Account) (found : before[id]? = some account)
    (same : ∀ row, (change row).id = row.id ∧ (change row).name = row.name ∧
      (change row).commonTokensBalance = row.commonTokensBalance + amount) :
    Gained (fun place => if id = place then amount else 0) before
      (modifyAccount before account.name change) where
  length := length_modifyFirst _ _ _
  rows place row at_ := by
    refine ⟨_, getElem?_modifyAccount listed.named at_, ?_⟩
    by_cases own : id = place
    · subst own
      obtain rfl := Option.some.inj (at_.symm.trans found)
      rw [if_pos rfl, if_pos rfl]
      exact same row
    · have apart : row.name ≠ account.name := fun equal =>
        own (listed.named.row_unique found at_ equal.symm)
      rw [if_neg apart, if_neg own, add_zero]
      exact ⟨rfl, rfl, rfl⟩

theorem names (gained : Gained gains before after) :
    after.map Account.name = before.map Account.name := by
  refine List.ext_getElem? fun place => ?_
  rw [List.getElem?_map, List.getElem?_map]
  by_cases within : place < before.length
  · obtain ⟨later, reached, _, name, _⟩ := gained.rows place _ (List.getElem?_eq_getElem within)
    rw [reached, List.getElem?_eq_getElem within, Option.map_some, Option.map_some, name]
  · rw [List.getElem?_eq_none (by rw [gained.length]; omega), List.getElem?_eq_none (by omega)]

theorem listed (gained : Gained gains before after) (listed : Listed before) : Listed after where
  named := by
    unfold Named
    rw [gained.names]
    exact listed.named
  numbered place account found := by
    have within := (List.getElem?_eq_some_iff.mp found).1
    rw [gained.length] at within
    have old := List.getElem?_eq_getElem within
    obtain ⟨later, reached, id, _⟩ := gained.rows place _ old
    obtain rfl := Option.some.inj (reached.symm.trans found)
    exact id.trans (listed.numbered place _ old)

end Gained

/-- The balances after each account, by its place, has gained core tokens. -/
structure Credited (accounts : List Account) (gains : Nat → Int) (before after : List Balance) :
    Prop where
  rows : ∀ (place : Nat) (row : Account), accounts[place]? = some row →
    free after row.name deipSymbol = free before row.name deipSymbol + gains place
  others : ∀ owner symbol, (symbol = deipSymbol → owner ∉ accounts.map Account.name) →
    free after owner symbol = free before owner symbol
  frozen : ∀ owner symbol, locked after owner symbol = locked before owner symbol
  known : ∀ owner symbol,
    accountBalanceExists after owner symbol = accountBalanceExists before owner symbol

namespace Credited

variable {accounts renewed : List Account} {gains more : Nat → Int}
variable {before middle after : List Balance}

theorem refl (accounts : List Account) (balances : List Balance) :
    Credited accounts (fun _ => 0) balances balances :=
  ⟨fun _ _ _ => (add_zero _).symm, fun _ _ _ => rfl, fun _ _ => rfl, fun _ _ => rfl⟩

theorem trans (first : Credited accounts gains before middle)
    (second : Credited accounts more middle after) :
    Credited accounts (fun place => gains place + more place) before after where
  rows place row found := by
    rw [second.rows place row found, first.rows place row found, add_assoc]
  others owner symbol apart := (second.others owner symbol apart).trans (first.others owner symbol apart)
  frozen owner symbol := (second.frozen owner symbol).trans (first.frozen owner symbol)
  known owner symbol := (second.known owner symbol).trans (first.known owner symbol)

theorem congr (credited : Credited accounts gains before after)
    (same : ∀ place, gains place = more place) : Credited accounts more before after where
  rows place row found := by
    rw [← same place]
    exact credited.rows place row found
  others := credited.others
  frozen := credited.frozen
  known := credited.known

/-- Accounts are told apart by their names. -/
theorem renamed (credited : Credited renewed gains before after)
    (gained : Gained more accounts renewed) : Credited accounts gains before after where
  rows place row found := by
    obtain ⟨later, reached, _, name, _⟩ := gained.rows place row found
    rw [← name]
    exact credited.rows place later reached
  others owner symbol apart := credited.others owner symbol (by rwa [gained.names])
  frozen := credited.frozen
  known := credited.known

/-- A credit of core tokens to the account at one place. -/
theorem of_credit (listed : Listed accounts) {id : Nat} {account : Account} {amount : Int}
    (found : accounts[id]? = some account)
    (credits : creditAccountBalance before account.name ⟨amount, deipSymbol⟩ = .ok after) :
    Credited accounts (fun place => if id = place then amount else 0) before after where
  rows place row at_ := by
    rw [(creditAccountBalance_free credits row.name deipSymbol).1, entry]
    by_cases own : id = place
    · subst own
      obtain rfl := Option.some.inj (at_.symm.trans found)
      rw [if_pos ⟨rfl, rfl⟩, if_pos rfl]
    · have apart : row.name ≠ account.name := fun equal =>
        own (listed.named.row_unique found at_ equal.symm)
      rw [if_neg fun both => apart both.1, if_neg own]
  others owner symbol apart := by
    rw [(creditAccountBalance_free credits owner symbol).1, entry, if_neg, add_zero]
    rintro ⟨rfl, core⟩
    exact apart core (List.mem_map_of_mem (List.mem_of_getElem? found))
  frozen owner symbol := (creditAccountBalance_free credits owner symbol).2.1
  known owner symbol := (creditAccountBalance_free credits owner symbol).2.2

end Credited

/-! ## The shares of the routes -/

/-- The shares do not exceed the withdrawal if the percentages do not exceed the whole. -/
theorem total_share_le {withdrawal : Int} {routes : List WithdrawRoute} (sign : 0 ≤ withdrawal)
    (percents : ((routes.map WithdrawRoute.percent).sum : Int) ≤ fullPercent) :
    total (WithdrawRoute.share withdrawal) routes ≤ withdrawal := by
  have scaled : fullPercent * total (WithdrawRoute.share withdrawal) routes ≤
      withdrawal * ((routes.map WithdrawRoute.percent).sum : Int) := by
    induction routes with
    | nil => simp
    | cons route rest hypothesis =>
      rw [List.map_cons, List.sum_cons] at percents ⊢
      rw [Nat.cast_add] at percents ⊢
      have one : fullPercent * route.share withdrawal ≤ withdrawal * route.percent :=
        Int.mul_ediv_self_le (by decide)
      have others := hypothesis (by omega)
      rw [total_cons, mul_add, mul_add]
      exact add_le_add one others
  have whole : withdrawal * ((routes.map WithdrawRoute.percent).sum : Int) ≤
      withdrawal * fullPercent := Int.mul_le_mul_of_nonneg_left percents sign
  rw [fullPercent] at scaled whole
  omega

/-! ## The two passes over the routes -/

namespace WithdrawRoute

/-- The common tokens that a route locks for the account at a place. -/
def locks (withdrawal : Int) (place : Nat) (route : WithdrawRoute) : Int :=
  if route.autoCommonToken = true ∧ route.toAccount = place then route.share withdrawal else 0

/-- The core tokens that a route pays to the account at a place. -/
def pays (withdrawal : Int) (place : Nat) (route : WithdrawRoute) : Int :=
  if route.autoCommonToken = false ∧ route.toAccount = place then route.share withdrawal else 0

/-- The share of an automatic route. -/
def locked (withdrawal : Int) (route : WithdrawRoute) : Int :=
  if route.autoCommonToken = true then route.share withdrawal else 0

/-- The share of another route. -/
def paid (withdrawal : Int) (route : WithdrawRoute) : Int :=
  if route.autoCommonToken = false then route.share withdrawal else 0

theorem locked_add_paid (withdrawal : Int) (route : WithdrawRoute) :
    route.locked withdrawal + route.paid withdrawal = route.share withdrawal := by
  cases auto : route.autoCommonToken with
  | false => simp [locked, paid, auto]
  | true => simp [locked, paid, auto]

end WithdrawRoute

section Passes

variable {state : State} {withdrawal : Int} {route : WithdrawRoute} {after : State × Int}

theorem depositCommonTokens_gained (sign : 0 ≤ withdrawal) (listed : Listed state.accounts)
    {asCommonTokens : Int}
    (deposited : depositCommonTokens withdrawal (state, asCommonTokens) route = .ok after) :
    ∃ accounts witnesses,
      after = ({ state with accounts, witnesses }, asCommonTokens + route.locked withdrawal) ∧
      Gained (fun place => route.locks withdrawal place) state.accounts accounts ∧
      accounts.map Account.voice = state.accounts.map Account.voice := by
  rw [depositCommonTokens, depositShare_eq sign] at deposited
  have least := route.share_nonneg sign
  by_cases auto : route.autoCommonToken = true
  · obtain ⟨_, shared, deposited⟩ := bind_ok_iff.mp (if_pos auto ▸ deposited)
    obtain rfl := Except.ok.inj shared
    rw [WithdrawRoute.locked, if_pos auto]
    by_cases positive : 0 < route.share withdrawal
    · rw [if_pos positive] at deposited
      obtain ⟨target, got, deposited⟩ := bind_ok_iff.mp deposited
      obtain ⟨voted, forwards, wrote⟩ := bind_ok_iff.mp deposited
      obtain rfl := pure_ok_iff.mp wrote
      obtain ⟨accounts, witnesses, rfl, same⟩ := forwardVotes_written forwards
      have voices := congrArg (List.map Prod.snd) same
      simp only [List.map_map] at voices
      refine ⟨accounts, witnesses, rfl, ?_, voices.trans (map_modifyFirst fun _ => rfl)⟩
      have funded := Gained.modify listed
        (fun account => { account with
          commonTokensBalance := account.commonTokensBalance + route.share withdrawal })
        (listed.row got).1 fun _ => ⟨rfl, rfl, rfl⟩
      refine (funded.trans (.of_unvoted same)).congr fun place => ?_
      rw [add_zero, WithdrawRoute.locks]
      simp only [auto, true_and]
    · rw [if_neg positive] at deposited
      obtain rfl := pure_ok_iff.mp deposited
      refine ⟨_, _, rfl, (Gained.refl _).congr fun place => ?_, rfl⟩
      rw [WithdrawRoute.locks]
      split <;> omega
  · rw [if_neg auto] at deposited
    obtain rfl := pure_ok_iff.mp deposited
    rw [WithdrawRoute.locked, if_neg auto, add_zero]
    refine ⟨_, _, rfl, (Gained.refl _).congr fun place => ?_, rfl⟩
    rw [WithdrawRoute.locks, if_neg fun both => auto both.1]

/-- The first pass locks the shares of the automatic routes. -/
theorem depositAll_gained (sign : 0 ≤ withdrawal) (listed : Listed state.accounts)
    {asCommonTokens : Int} {routes : List WithdrawRoute}
    (deposited : routes.foldlM (depositCommonTokens withdrawal) (state, asCommonTokens) = .ok after) :
    ∃ accounts witnesses,
      after = ({ state with accounts, witnesses },
        asCommonTokens + total (WithdrawRoute.locked withdrawal) routes) ∧
      Gained (fun place => total (WithdrawRoute.locks withdrawal place) routes) state.accounts
        accounts ∧
      accounts.map Account.voice = state.accounts.map Account.voice := by
  induction routes generalizing state asCommonTokens with
  | nil =>
    obtain rfl := pure_ok_iff.mp deposited
    exact ⟨_, _, by rw [total_nil, add_zero], .refl _, rfl⟩
  | cons route rest hypothesis =>
    rw [List.foldlM_cons] at deposited
    obtain ⟨middle, first, later⟩ := bind_ok_iff.mp deposited
    obtain ⟨accounts, witnesses, rfl, gained, voices⟩ :=
      depositCommonTokens_gained sign listed first
    obtain ⟨_, _, rfl, more, still⟩ := hypothesis (gained.listed listed) later
    refine ⟨_, _, by rw [total_cons, add_assoc], (gained.trans more).congr fun place => ?_,
      still.trans voices⟩
    rw [total_cons]

theorem depositDeip_credited (sign : 0 ≤ withdrawal) (listed : Listed state.accounts) {asDeip : Int}
    (deposited : depositDeip withdrawal (state, asDeip) route = .ok after) :
    ∃ balances,
      after = ({ state with
        balances
        props := releasedProps state.props (route.paid withdrawal) },
        asDeip + route.paid withdrawal) ∧
      Credited state.accounts (fun place => route.pays withdrawal place) state.balances
        balances := by
  rw [depositDeip, depositShare_eq sign] at deposited
  have least := route.share_nonneg sign
  by_cases auto : route.autoCommonToken = true
  · rw [if_pos auto] at deposited
    obtain rfl := pure_ok_iff.mp deposited
    have none : ¬ route.autoCommonToken = false := by simp [auto]
    rw [WithdrawRoute.paid, if_neg none, add_zero, releasedProps_zero]
    refine ⟨_, rfl, (Credited.refl _ _).congr fun place => ?_⟩
    rw [WithdrawRoute.pays, if_neg fun both => none both.1]
  · rw [if_neg auto] at deposited
    obtain ⟨target, got, deposited⟩ := bind_ok_iff.mp deposited
    obtain ⟨_, shared, deposited⟩ := bind_ok_iff.mp deposited
    obtain rfl := Except.ok.inj shared
    rw [Bool.not_eq_true] at auto
    rw [WithdrawRoute.paid, if_pos auto]
    by_cases positive : 0 < route.share withdrawal
    · rw [if_pos positive] at deposited
      obtain ⟨balances, credits, deposited⟩ := bind_ok_iff.mp deposited
      obtain ⟨props, decreased, wrote⟩ := bind_ok_iff.mp deposited
      obtain rfl := pure_ok_iff.mp wrote
      obtain rfl := decreaseFund_released decreased
      refine ⟨balances, rfl, (Credited.of_credit listed (listed.row got).1 credits).congr
        fun place => ?_⟩
      rw [WithdrawRoute.pays]
      simp only [auto, true_and]
    · rw [if_neg positive] at deposited
      obtain rfl := pure_ok_iff.mp deposited
      have none : route.share withdrawal = 0 := by omega
      rw [none, releasedProps_zero]
      refine ⟨_, rfl, (Credited.refl _ _).congr fun place => ?_⟩
      rw [WithdrawRoute.pays, none, ite_self]

/-- The second pass pays the shares of the other routes. -/
theorem payAll_credited (sign : 0 ≤ withdrawal) (listed : Listed state.accounts) {asDeip : Int}
    {routes : List WithdrawRoute}
    (deposited : routes.foldlM (depositDeip withdrawal) (state, asDeip) = .ok after) :
    ∃ balances,
      after = ({ state with
        balances
        props := releasedProps state.props (total (WithdrawRoute.paid withdrawal) routes) },
        asDeip + total (WithdrawRoute.paid withdrawal) routes) ∧
      Credited state.accounts (fun place => total (WithdrawRoute.pays withdrawal place) routes)
        state.balances balances := by
  induction routes generalizing state asDeip with
  | nil =>
    obtain rfl := pure_ok_iff.mp deposited
    exact ⟨_, by rw [total_nil, add_zero, releasedProps_zero], .refl _ _⟩
  | cons route rest hypothesis =>
    rw [List.foldlM_cons] at deposited
    obtain ⟨middle, first, later⟩ := bind_ok_iff.mp deposited
    obtain ⟨balances, rfl, credited⟩ := depositDeip_credited sign listed first
    obtain ⟨_, rfl, more⟩ := hypothesis (by exact listed) later
    refine ⟨_, by rw [total_cons, add_assoc, releasedProps_add],
      (credited.trans more).congr fun place => ?_⟩
    rw [total_cons]

/-- A route that pays core tokens leads to a balance of them. -/
def WithdrawRoute.Lands (withdrawal : Int) (state : State) (route : WithdrawRoute) : Prop :=
  route.autoCommonToken = false → 0 < route.share withdrawal →
    ∀ target, getAccountById state.accounts route.toAccount = .ok target →
      accountBalanceExists state.balances target.name deipSymbol = true

theorem WithdrawRoute.lands_congr {gains : Nat → Int} {accounts : List Account}
    {witnesses : List Witness} (listed : Listed state.accounts)
    (gained : Gained gains state.accounts accounts) :
    route.Lands withdrawal { state with accounts, witnesses } ↔ route.Lands withdrawal state := by
  have renewed := gained.listed listed
  refine forall_congr' fun _ => forall_congr' fun _ => ⟨fun lands target got => ?_,
    fun lands target got => ?_⟩
  · obtain ⟨later, reached, _, name, _⟩ := gained.rows _ _ (listed.row got).1
    exact name ▸ lands later (renewed.numbered.getAccountById_iff.mpr reached)
  · have within := (List.getElem?_eq_some_iff.mp (renewed.row got).1).1
    rw [gained.length] at within
    have old := List.getElem?_eq_getElem within
    obtain ⟨later, reached, _, name, _⟩ := gained.rows _ _ old
    obtain rfl := Option.some.inj (reached.symm.trans (renewed.row got).1)
    exact name ▸ lands _ (listed.numbered.getAccountById_iff.mpr old)

theorem decreaseFund_succeeds {props : GlobalProperties}
    (core : props.commonTokensFund.symbol = deipSymbol) (amount : Int) :
    decreaseFund props amount = .ok (releasedProps props amount) := by
  rw [decreaseFund, Asset.sub_ok_iff.mpr ⟨core, rfl⟩]
  rfl

theorem depositDeip_ok_iff (sign : 0 ≤ withdrawal)
    (core : state.props.commonTokensFund.symbol = deipSymbol) {target : Account}
    (got : getAccountById state.accounts route.toAccount = .ok target) (asDeip : Int) :
    (∃ after, depositDeip withdrawal (state, asDeip) route = .ok after) ↔
      route.Lands withdrawal state := by
  have only (other : Account) (met : getAccountById state.accounts route.toAccount = .ok other) :
      other = target := Except.ok.inj (met.symm.trans got)
  rw [depositDeip, depositShare_eq sign]
  by_cases auto : route.autoCommonToken = true
  · rw [if_pos auto]
    refine ⟨fun _ other => ?_, fun _ => ⟨_, rfl⟩⟩
    cases auto.symm.trans other
  · rw [if_neg auto]
    by_cases positive : 0 < route.share withdrawal
    · constructor
      · rintro ⟨after, deposited⟩ _ _ other met
        obtain rfl := only other met
        obtain ⟨_, again, deposited⟩ := bind_ok_iff.mp deposited
        obtain rfl := Except.ok.inj (again.symm.trans got)
        obtain ⟨_, shared, deposited⟩ := bind_ok_iff.mp deposited
        obtain rfl := Except.ok.inj shared
        rw [if_pos positive] at deposited
        obtain ⟨balances, credits, _⟩ := bind_ok_iff.mp deposited
        exact creditAccountBalance_known credits
      · intro lands
        have known := lands (by simpa using auto) positive target got
        obtain ⟨balances, credits⟩ : ∃ balances, creditAccountBalance state.balances target.name
            ⟨route.share withdrawal, deipSymbol⟩ = .ok balances :=
          creditAccountBalance_succeeds known
        refine exists_bind got (exists_bind rfl ?_)
        rw [if_pos positive]
        exact exists_bind credits (exists_bind (decreaseFund_succeeds core _) ⟨_, rfl⟩)
    · refine ⟨fun _ _ more => absurd more positive, fun _ => exists_bind got (exists_bind rfl ?_)⟩
      rw [if_neg positive]
      exact ⟨_, rfl⟩

/-- The second pass runs through if every route that pays leads to a balance. -/
theorem payAll_ok_iff (sign : 0 ≤ withdrawal) (listed : Listed state.accounts)
    (core : state.props.commonTokensFund.symbol = deipSymbol) {routes : List WithdrawRoute}
    (targets : ∀ route ∈ routes, ∃ target, getAccountById state.accounts route.toAccount = .ok target)
    (asDeip : Int) :
    (∃ after, routes.foldlM (depositDeip withdrawal) (state, asDeip) = .ok after) ↔
      ∀ route ∈ routes, route.Lands withdrawal state := by
  induction routes generalizing state asDeip with
  | nil => exact ⟨fun _ _ none => absurd none List.not_mem_nil, fun _ => ⟨_, rfl⟩⟩
  | cons route rest hypothesis =>
    rw [List.forall_mem_cons] at targets ⊢
    obtain ⟨target, got⟩ := targets.1
    have head := depositDeip_ok_iff sign core got asDeip
    -- the first route changes no key of a balance
    have onward {middle : State × Int}
        (first : depositDeip withdrawal (state, asDeip) route = .ok middle) :
        (∃ after, rest.foldlM (depositDeip withdrawal) middle = .ok after) ↔
          ∀ route ∈ rest, route.Lands withdrawal state := by
      obtain ⟨balances, rfl, credited⟩ := depositDeip_credited sign listed first
      rw [hypothesis (by exact listed) (by exact core) (by exact targets.2)]
      simp only [WithdrawRoute.Lands, credited.known]
    constructor
    · rintro ⟨after, ran⟩
      rw [List.foldlM_cons] at ran
      obtain ⟨middle, first, later⟩ := bind_ok_iff.mp ran
      exact ⟨head.mp ⟨middle, first⟩, (onward first).mp ⟨after, later⟩⟩
    · rintro ⟨lands, others⟩
      obtain ⟨middle, first⟩ := head.mpr lands
      obtain ⟨after, later⟩ := (onward first).mpr others
      exact ⟨after, by rw [List.foldlM_cons, first]; exact later⟩

/-- The first pass runs through if its votes do. -/
theorem depositAll_ok_iff (sign : 0 ≤ withdrawal) (asCommonTokens : Int)
    {routes : List WithdrawRoute} :
    (∀ after, routes.foldlM (depositCommonTokens withdrawal) (state, asCommonTokens) = .ok after →
      ∃ final, routes.foldlM (castRoute withdrawal) state = .ok final ∧ Alike after.1 final) ∧
    ∀ final, routes.foldlM (castRoute withdrawal) state = .ok final →
      ∃ after, routes.foldlM (depositCommonTokens withdrawal) (state, asCommonTokens) = .ok after ∧
        Alike after.1 final := by
  constructor
  · intro after ran
    refine foldlM_simulates (fun (progress : State × Int) cast => Alike progress.1 cast) ?_
      (Alike.refl state) ran
    rintro route _ ⟨reached, sum⟩ cast next alike deposited
    obtain ⟨casts, voted, likewise⟩ := (depositCommonTokens_iff sign sum).1 next deposited
    obtain ⟨last, follows, still⟩ := castRoute_alike alike voted
    exact ⟨last, follows, likewise.trans still⟩
  · intro final ran
    refine foldlM_simulates (fun cast (progress : State × Int) => Alike progress.1 cast) ?_
      (Alike.refl state) ran
    rintro route _ cast ⟨reached, sum⟩ next alike casts
    obtain ⟨last, voted, likewise⟩ := castRoute_alike alike.symm casts
    obtain ⟨after, deposited, still⟩ := (depositCommonTokens_iff sign sum).2 last voted
    exact ⟨after, deposited, still.trans likewise.symm⟩

end Passes

end DeipChain.Ledger
