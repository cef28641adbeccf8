import DeipChain.Ledger.WithdrawalRuns

/-!
# The routes of withdrawals

An account splits its withdrawals by routes, of which it counts as many as there are. Both
uses of the routes, the check of their percentages and the payout, begin behind the account
with id 0. So a route to that account is neither checked nor paid, and all other routes are
both.
-/
namespace DeipChain.Ledger

open DeipChain.Result DeipChain.Table

variable {percentOf : Int → Int → Int} {genesis : GenesisState} {steps : List Step}
  {state next : State}

/-- The routes of an account. -/
def routesOf (state : State) (account : Nat) : List WithdrawRoute :=
  state.routes.filter fun route => route.fromAccount == account

/-- The routes of an account as they are meant to be. Each of them is walked once wherever the
    routes are walked. -/
structure RoutesInOrder (state : State) (account : Account) : Prop where
  whole : (((routesOf state account.id).map WithdrawRoute.percent).sum : Int) ≤ fullPercent
  counted : account.withdrawRoutes = (routesOf state account.id).length
  bounded : account.withdrawRoutes ≤ maxWithdrawRoutes
  walked : ∀ route ∈ routesOf state account.id, (routesFrom state.routes account.id).count route = 1

/-! ## Sums over the routes -/

/-- What a route adds to the number of routes of an account. -/
def WithdrawRoute.countFor (account : Nat) (route : WithdrawRoute) : Int :=
  if route.fromAccount = account then 1 else 0

/-- What a route adds to the percentages of an account that are checked. -/
def WithdrawRoute.percentFor (account : Nat) (route : WithdrawRoute) : Int :=
  if route.fromAccount = account ∧ 0 < route.toAccount then route.percent else 0

theorem routesOf_length (state : State) (account : Nat) :
    ((routesOf state account).length : Int) = total (WithdrawRoute.countFor account) state.routes := by
  rw [routesOf]
  induction state.routes with
  | nil => rfl
  | cons route rest hypothesis =>
    rw [total_cons, ← hypothesis, WithdrawRoute.countFor]
    by_cases own : route.fromAccount = account
    · rw [List.filter_cons_of_pos (by simpa using own), List.length_cons, if_pos own]
      omega
    · rw [List.filter_cons_of_neg (by simpa using own), if_neg own]
      omega

theorem routesFrom_perm (routes : List WithdrawRoute) (account : Nat) :
    (routesFrom routes account).Perm
      (routes.filter fun route => route.fromAccount == account && decide (0 < route.toAccount)) :=
  List.perm_insertionSort _ _

/-- The sum that the operation checks, before it is cut off to 16 bits. -/
theorem routesFrom_sum (routes : List WithdrawRoute) (account : Nat) :
    (((routesFrom routes account).map WithdrawRoute.percent).sum : Int) =
      total (WithdrawRoute.percentFor account) routes := by
  rw [((routesFrom_perm routes account).map _).sum_eq]
  induction routes with
  | nil => rfl
  | cons route rest hypothesis =>
    rw [total_cons, ← hypothesis, WithdrawRoute.percentFor]
    by_cases own : route.fromAccount = account ∧ 0 < route.toAccount
    · rw [List.filter_cons_of_pos (by simpa using own), List.map_cons, List.sum_cons, if_pos own]
      push_cast
      rfl
    · rw [List.filter_cons_of_neg (by simpa using own), if_neg own, zero_add]

/-! ## What operations keep -/

/-- The routes of all accounts, as far as every operation keeps them. -/
structure RoutesKept (state : State) : Prop where
  keys : (state.routes.map fun route => (route.fromAccount, route.toAccount)).Nodup
  known : ∀ route ∈ state.routes,
    route.fromAccount < state.accounts.length ∧ route.toAccount < state.accounts.length
  counted : ∀ account ∈ state.accounts,
    (account.withdrawRoutes : Int) = total (WithdrawRoute.countFor account.id) state.routes
  bounded : ∀ account ∈ state.accounts, account.withdrawRoutes ≤ maxWithdrawRoutes
  whole : ∀ account, total (WithdrawRoute.percentFor account) state.routes ≤ fullPercent

/-- A step that writes no routes. -/
theorem RoutesKept.of_extended {written : Part → Bool} (kept : RoutesKept state)
    (routes : next.routes = state.routes)
    (extended : Extended written state.accounts next.accounts)
    (unwritten : written .routes = false) : RoutesKept next := by
  have longer := extended.length_le
  have rows (account : Account) (member : account ∈ next.accounts) :
      (account.withdrawRoutes : Int) = total (WithdrawRoute.countFor account.id) next.routes ∧
        account.withdrawRoutes ≤ maxWithdrawRoutes := by
    obtain ⟨place, found⟩ := List.mem_iff_getElem?.mp member
    rw [routes]
    by_cases early : place < state.accounts.length
    · obtain ⟨later, met, same⟩ := extended.rows place _ (List.getElem?_eq_getElem early)
      obtain rfl : later = account := Option.some.inj (met.symm.trans found)
      rw [same.routes unwritten, same.id]
      have old := List.getElem_mem early
      exact ⟨kept.counted _ old, kept.bounded _ old⟩
    · obtain ⟨name, fresh⟩ := extended.fresh place account found (by omega)
      rw [fresh.routes unwritten, fresh.id]
      refine ⟨(total_eq_zero fun route listed => if_neg ?_).symm, Nat.zero_le _⟩
      have own := (kept.known route listed).1
      change route.fromAccount ≠ place
      omega
  refine ⟨routes ▸ kept.keys, fun route listed => ?_, fun account member => (rows account member).1,
    fun account member => (rows account member).2, routes ▸ kept.whole⟩
  have both := kept.known route (routes ▸ listed)
  exact ⟨both.1.trans_le longer, both.2.trans_le longer⟩

/-- New routes, and the number of routes of the one account that they differ for. -/
theorem RoutesKept.rewritten (change : Nat → Nat) {account : Account} {routes : List WithdrawRoute}
    (kept : RoutesKept state) (listed : Listed state.accounts) (member : account ∈ state.accounts)
    (keys : (routes.map fun route => (route.fromAccount, route.toAccount)).Nodup)
    (known : ∀ route ∈ routes,
      route.fromAccount < state.accounts.length ∧ route.toAccount < state.accounts.length)
    (counts : ∀ id, total (WithdrawRoute.countFor id) routes =
      total (WithdrawRoute.countFor id) state.routes +
        if account.id = id then (change account.withdrawRoutes : Int) - account.withdrawRoutes else 0)
    (bounded : change account.withdrawRoutes ≤ maxWithdrawRoutes)
    (whole : ∀ id, total (WithdrawRoute.percentFor id) routes ≤ fullPercent) :
    RoutesKept { state with
      routes
      accounts := modifyAccount state.accounts account.name fun row =>
        { row with withdrawRoutes := change row.withdrawRoutes } } := by
  have rows (row : Account) (inside : row ∈ modifyAccount state.accounts account.name fun row =>
        { row with withdrawRoutes := change row.withdrawRoutes }) :
      (row.withdrawRoutes : Int) = total (WithdrawRoute.countFor row.id) routes ∧
        row.withdrawRoutes ≤ maxWithdrawRoutes := by
    have found := find?_of_nodup listed.named member
    rcases (mem_modifyFirst_iff listed.named found).mp inside with ⟨old, apart⟩ | rfl
    · have ids : account.id ≠ row.id := by
        obtain ⟨place, at_⟩ := List.mem_iff_getElem?.mp old
        obtain ⟨spot, there⟩ := List.mem_iff_getElem?.mp member
        intro same
        rw [listed.numbered _ _ at_, listed.numbered _ _ there] at same
        obtain rfl := Option.some.inj ((same ▸ there).symm.trans at_)
        exact apart rfl
      rw [counts, if_neg ids, add_zero]
      exact ⟨kept.counted row old, kept.bounded row old⟩
    · refine ⟨?_, bounded⟩
      have before := kept.counted account member
      rw [counts, if_pos rfl, ← before]
      exact (add_sub_cancel _ _).symm
  refine ⟨keys, fun route inside => ?_, fun row inside => (rows row inside).1,
    fun row inside => (rows row inside).2, whole⟩
  have same : (modifyAccount state.accounts account.name fun row =>
      { row with withdrawRoutes := change row.withdrawRoutes }).length = state.accounts.length :=
    length_modifyFirst _ _ _
  rw [same]
  exact known route inside

namespace SetWithdrawCommonTokensRouteOperation

variable {op : SetWithdrawCommonTokensRouteOperation} {fromAccount toAccount : Account}

/-- The key of a route in `by_withdraw_route`. -/
def between (fromAccount toAccount : Account) (route : WithdrawRoute) : Bool :=
  route.fromAccount == fromAccount.id && route.toAccount == toAccount.id

/-- What the operation does to the routes: it removes, changes or adds one. -/
theorem updateRoute_cases (updated : op.updateRoute state fromAccount toAccount = .ok next) :
    (∃ route, state.routes.find? (between fromAccount toAccount) = some route ∧
      next = { state with
        routes := state.routes.eraseP (between fromAccount toAccount)
        accounts := modifyAccount state.accounts fromAccount.name fun account =>
          { account with withdrawRoutes := account.withdrawRoutes - 1 } }) ∨
    (∃ route, state.routes.find? (between fromAccount toAccount) = some route ∧
      next = { state with
        routes := modifyFirst (between fromAccount toAccount)
          (fun route => { route with percent := op.percent, autoCommonToken := op.autoCommonToken })
          state.routes }) ∨
    (state.routes.any (between fromAccount toAccount) = false ∧
      fromAccount.withdrawRoutes < maxWithdrawRoutes ∧
      next = { state with
        routes := state.routes ++ [⟨fromAccount.id, toAccount.id, op.percent, op.autoCommonToken⟩]
        accounts := modifyAccount state.accounts fromAccount.name fun account =>
          { account with withdrawRoutes := account.withdrawRoutes + 1 } }) := by
  rw [updateRoute] at updated
  dsimp only at updated
  change (if state.routes.any (between fromAccount toAccount) then _ else _) = _ at updated
  by_cases known : state.routes.any (between fromAccount toAccount) = true
  · obtain ⟨route, found⟩ := Option.isSome_iff_exists.mp (List.find?_isSome.mpr
      (List.any_eq_true.mp known))
    rw [if_pos known] at updated
    by_cases none : op.percent = 0
    · rw [if_pos none, pure_ok_iff] at updated
      exact .inl ⟨route, found, updated.symm⟩
    · rw [if_neg none, pure_ok_iff] at updated
      exact .inr (.inl ⟨route, found, updated.symm⟩)
  · rw [if_neg known] at updated
    simp only [bind_ok_iff, require_ok_iff, pure_ok_iff] at updated
    obtain ⟨_, _, _, below, rfl⟩ := updated
    exact .inr (.inr ⟨Bool.not_eq_true _ ▸ known, below, rfl⟩)

/-- The number of the routes of the account changes by one at most, and its percentages by that
    of the operation. -/
theorem apply_kept (kept : RoutesKept state) (listed : Listed state.accounts)
    (valid : op.validate = .ok ()) (applied : op.apply state = .ok next) : RoutesKept next := by
  have bound := require_ok_iff.mp valid
  simp only [apply, bind_ok_iff, require_ok_iff, pure_ok_iff] at applied
  obtain ⟨fromAccount, got, toAccount, gotTo, reached, updated, _, checked, rfl⟩ := applied
  have member := List.mem_of_find?_eq_some (expect_ok_iff.mp got)
  have counted := kept.counted fromAccount member
  have weight (id : Nat) (route : WithdrawRoute) (own : route.fromAccount = fromAccount.id) :
      route.countFor id = (if fromAccount.id = id then 1 else 0) ∧ 0 ≤ route.percentFor id ∧
        route.percentFor id ≤ if fromAccount.id = id then (route.percent : Int) else 0 := by
    rw [WithdrawRoute.countFor, WithdrawRoute.percentFor, own]
    refine ⟨rfl, ?_, ?_⟩
    · split <;> omega
    · split <;> split <;> omega
  -- the sum before the operation fits, so the sum after it is not cut off
  have whole (percents : ∀ id, total (WithdrawRoute.percentFor id) reached.routes ≤
      total (WithdrawRoute.percentFor id) state.routes +
        if fromAccount.id = id then (op.percent : Int) else 0) (id : Nat) :
      total (WithdrawRoute.percentFor id) reached.routes ≤ fullPercent := by
    have before := kept.whole id
    have after := percents id
    by_cases own : fromAccount.id = id
    · subst own
      rw [if_pos rfl] at after
      have sum := routesFrom_sum reached.routes fromAccount.id
      rw [fullPercent] at *
      omega
    · rw [if_neg own, add_zero] at after
      exact after.trans before
  have numbered (account : Account) (inside : account ∈ state.accounts) :
      account.id < state.accounts.length := by
    obtain ⟨place, found⟩ := List.mem_iff_getElem?.mp inside
    exact listed.numbered _ _ found ▸ (List.getElem?_eq_some_iff.mp found).1
  have joined (route : WithdrawRoute) (found : state.routes.find? (between fromAccount toAccount) =
      some route) : route.fromAccount = fromAccount.id := by
    have both := List.find?_some found
    simp only [between, Bool.and_eq_true, beq_iff_eq] at both
    exact both.1
  rcases updateRoute_cases updated with ⟨route, found, rfl⟩ | ⟨route, found, rfl⟩ |
    ⟨fresh, below, rfl⟩
  · have own := joined route found
    have some : 1 ≤ fromAccount.withdrawRoutes := by
      have one : route.countFor fromAccount.id = 1 := if_pos own
      have sign (other : WithdrawRoute) (_ : other ∈ state.routes) :
          0 ≤ other.countFor fromAccount.id := by
        rw [WithdrawRoute.countFor]
        split <;> omega
      have least := le_total sign (List.mem_of_find?_eq_some found)
      omega
    refine RoutesKept.rewritten (· - 1) kept listed member (nodup_eraseP kept.keys)
      (fun other inside => kept.known other (List.mem_of_mem_eraseP inside)) (fun id => ?_) ?_
      (whole fun id => ?_)
    · rw [total_eraseP _ found, (weight id route own).1]
      split <;> omega
    · exact (Nat.sub_le _ _).trans (kept.bounded fromAccount member)
    · dsimp only
      rw [total_eraseP _ found]
      have sign := (weight id route own).2.1
      split <;> omega
  · have own := joined route found
    refine ⟨?_, ?_, fun account inside => ?_, kept.bounded, whole fun id => ?_⟩
    · dsimp only
      rw [map_modifyFirst]
      · exact kept.keys
      · exact fun _ => rfl
    · exact forall_modifyFirst kept.known fun _ _ before => before
    · dsimp only
      rw [total_modifyFirst_same]
      · exact kept.counted account inside
      · exact fun _ => rfl
    · dsimp only
      rw [total_modifyFirst _ found]
      have sign := (weight id route own).2.1
      have bounds := (weight id { route with
        percent := op.percent
        autoCommonToken := op.autoCommonToken } own).2.2
      dsimp only at bounds
      omega
  · refine RoutesKept.rewritten (· + 1) kept listed member ?_ ?_ (fun id => ?_) below
      (whole fun id => ?_)
    · refine nodup_append_fresh kept.keys fun other inside same => ?_
      rw [List.any_eq_false] at fresh
      simp only [Prod.mk.injEq] at same
      exact fresh other inside (by simp [between, same.1, same.2])
    · exact forall_append_singleton kept.known ⟨numbered fromAccount member,
        numbered toAccount (List.mem_of_find?_eq_some (expect_ok_iff.mp gotTo))⟩
    · rw [total_append, total_cons, total_nil, (weight id _ rfl).1]
      split <;> push_cast <;> omega
    · dsimp only
      rw [total_append, total_cons, total_nil]
      have bounds := (weight id ⟨fromAccount.id, toAccount.id, op.percent, op.autoCommonToken⟩ rfl).2.2
      dsimp only at bounds
      omega

end SetWithdrawCommonTokensRouteOperation

theorem Step.routes_kept {step : Step} (listed : Listed state.accounts)
    (applied : step.apply percentOf state = .ok next) (kept : RoutesKept state) :
    RoutesKept next := by
  have nothing (unwritten : step.writes .routes = false) : RoutesKept next :=
    kept.of_extended ((Step.untouched applied).routes unwritten) (Step.extended applied) unwritten
  cases step with
  | operation op =>
    cases op with
    | setWithdrawCommonTokensRoute op =>
      simp only [apply, Operation.apply, Operation.validate, Operation.evaluate, bind_ok_iff] at applied
      obtain ⟨_, valid, _, _, evaluated⟩ := applied
      exact op.apply_kept kept listed valid evaluated
    | _ => exact nothing rfl
  | _ => exact nothing rfl

theorem run_routesKept (ran : run percentOf genesis steps = .ok state) : RoutesKept state := by
  obtain ⟨start, inited, ran⟩ := run_ok_iff.mp ran
  have sound := (GenesisState.init_books inited).1
  have listed : Listed start.accounts := by
    have none : run percentOf genesis [] = .ok start := run_ok_iff.mpr ⟨start, inited, rfl⟩
    exact run_listed none
  have begun : RoutesKept start := by
    obtain ⟨assets, _, framed⟩ := GenesisState.init_framed inited
    have blank : RoutesKept (genesis.blank assets) := by
      refine ⟨List.nodup_nil, ?_, ?_, ?_, fun _ => (by decide : 0 ≤ fullPercent)⟩
      all_goals
        intro _ member
        cases member
    exact blank.of_extended ((Untouched.of_rest framed.1).routes rfl) framed.2.1 rfl
  refine (foldlM_invariant (fun _ reached => Sound reached ∧ Listed reached.accounts ∧
    RoutesKept reached) ?_ ⟨sound, listed, begun⟩ ran).2.2
  rintro step _ state next ⟨sound, listed, kept⟩ applied
  exact ⟨(Step.apply_sound applied).sound sound, Step.listed sound listed applied,
    Step.routes_kept listed applied kept⟩

/-- The payouts of a pass walk the routes as they were when it began. -/
theorem walkVisits_routes {fuel : Nat} {due : Option Account} {visit : Visit}
    (visited : visit ∈ walkVisits fuel state due) : visit.before.routes = state.routes := by
  induction fuel generalizing state due with
  | zero => cases visited
  | succ fuel hypothesis =>
    cases due with
    | none => cases visited
    | some due =>
      rw [walkVisits] at visited
      cases got : getAccountById state.accounts due.id with
      | error _ =>
        rw [got] at visited
        cases visited
      | ok account =>
        rw [got] at visited
        dsimp only at visited
        split at visited
        · split at visited
          · rename_i amount next _ withdrew
            rcases List.mem_cons.mp visited with rfl | later
            · rfl
            · exact (hypothesis later).trans ((withdrawCommonTokens_untouched withdrew).routes rfl)
          · cases visited
        · cases visited

/-- In every state that a chain reaches, the routes of an account are as they are meant to be
exactly if none of them leads to the account with id 0. Their number is always counted and
bounded, and every payout of a pass walks them as they are when it begins. -/
theorem run_routes (percentOf : Int → Int → Int) (genesis : GenesisState) (steps : List Step)
    (state : State) (ran : run percentOf genesis steps = .ok state) :
    (∀ account ∈ state.accounts,
      (RoutesInOrder state account ↔
        ∀ route ∈ routesOf state account.id, route.toAccount ≠ 0) ∧
      account.withdrawRoutes = (routesOf state account.id).length ∧
      account.withdrawRoutes ≤ maxWithdrawRoutes) ∧
    ∀ visit ∈ processVisits state, ∀ account,
      routesFrom visit.before.routes account = routesFrom state.routes account := by
  have kept := run_routesKept ran
  refine ⟨fun account member => ?_, fun visit visited account => by rw [walkVisits_routes visited]⟩
  have counted : account.withdrawRoutes = (routesOf state account.id).length := by
    have sum := kept.counted account member
    rw [← routesOf_length] at sum
    exact_mod_cast sum
  refine ⟨⟨fun ordered route own => ?_, fun positive => ?_⟩, counted, kept.bounded account member⟩
  · intro lost
    have once := ordered.walked route own
    have walks : route ∈ routesFrom state.routes account.id := by
      refine List.count_pos_iff.mp ?_
      omega
    have behind := List.of_mem_filter ((routesFrom_perm _ _).mem_iff.mp walks)
    simp only [lost, Bool.and_eq_true, decide_eq_true_eq, lt_irrefl, and_false] at behind
  · have same : (routesFrom state.routes account.id).Perm (routesOf state account.id) := by
      refine (routesFrom_perm _ _).trans (List.Perm.of_eq (List.filter_congr fun route inside => ?_))
      rw [Bool.and_eq_left_iff_imp]
      intro own
      have apart := positive route (List.mem_filter.mpr ⟨inside, own⟩)
      exact decide_eq_true (Nat.pos_of_ne_zero apart)
    refine ⟨?_, counted, kept.bounded account member, fun route own => ?_⟩
    · rw [← (same.map _).sum_eq, routesFrom_sum]
      exact kept.whole account.id
    · rw [same.count_eq]
      exact List.count_eq_one_of_mem (kept.keys.of_map.filter _) own

/-- Half of the withdrawals is routed to another user. -/
theorem run_routes_sample : ∃ state,
    run Sample.percentOf Sample.genesis
      [.operation (.setWithdrawCommonTokensRoute ⟨"alice", "bob", 5000, false⟩)] = .ok state ∧
    ∀ account ∈ state.accounts, account.withdrawRoutes = (routesOf state account.id).length := by
  obtain ⟨state, ran⟩ := exists_ok (run Sample.percentOf Sample.genesis
    [.operation (.setWithdrawCommonTokensRoute ⟨"alice", "bob", 5000, false⟩)]) (by decide +kernel)
  exact ⟨state, ran, fun account member => ((run_routes _ _ _ _ ran).1 account member).2.1⟩

/-- The account with id 0 is the registrar. A route to it is not counted with the others, so the
    withdrawals are given away twice. -/
theorem run_routes_fails : ∃ state,
    run Sample.percentOf Sample.genesis
      [.operation (.setWithdrawCommonTokensRoute ⟨"alice", registrarAccountName, 10000, false⟩),
        .operation (.setWithdrawCommonTokensRoute ⟨"alice", "bob", 10000, false⟩)] = .ok state ∧
    ∃ account ∈ state.accounts, ¬ RoutesInOrder state account := by
  obtain ⟨state, ran, twice⟩ := exists_ok_of_any (run Sample.percentOf Sample.genesis
      [.operation (.setWithdrawCommonTokensRoute ⟨"alice", registrarAccountName, 10000, false⟩),
        .operation (.setWithdrawCommonTokensRoute ⟨"alice", "bob", 10000, false⟩)])
    (fun state => state.accounts.any fun account =>
      decide (fullPercent < ((routesOf state account.id).map WithdrawRoute.percent).sum))
    (by decide +kernel)
  obtain ⟨account, member, above⟩ := List.any_eq_true.mp twice
  exact ⟨state, ran, account, member, fun ordered =>
    absurd ordered.whole (not_le.mpr (of_decide_eq_true above))⟩

end DeipChain.Ledger
