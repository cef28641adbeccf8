import DeipChain.Accounts.Recovery
import DeipChain.Lib.Selection
import Mathlib.Data.List.Induction
import Mathlib.Data.List.TakeWhile

/-!
# What a recovery rests on

Every entry of the three tables goes back to an operation of the run: a request to the last
one for its account, an authority of the history to the moment it was replaced, a change to
the last one that was asked for. The sweep at the end of a block leaves only requests that
have not expired and authorities that are recent enough, and the operations of the next
block's transactions run at the same time. The operations of expired proposals run after
the clock has moved on and before the sweep, and there a recovery finds what has expired.
-/
namespace DeipChain.Recovery

open Result Protocol Selection

variable {Key : Type} [DecidableEq Key]

/-- A run of parts of blocks. -/
def run (config : Config) (start : State Key) (steps : List (Step Key)) :
    Except RecoveryError (State Key) :=
  steps.foldlM (State.step config) start

theorem run_append_singleton {config : Config} {start next : State Key} {steps : List (Step Key)}
    {step : Step Key} (ran : run config start (steps ++ [step]) = .ok next) :
    ∃ state, run config start steps = .ok state ∧ state.step config step = .ok next := by
  rw [run, List.foldlM_append, bind_ok_iff] at ran
  obtain ⟨state, before, last⟩ := ran
  rw [List.foldlM_cons, bind_ok_iff] at last
  obtain ⟨_, stepped, last⟩ := last
  rw [List.foldlM_nil, pure_ok_iff] at last
  exact ⟨state, before, last ▸ stepped⟩

/-- A step that replaces, cancels or uses the request for an account. -/
def Step.Settles (name : String) : Step Key → Prop
  | .operation (.requestAccountRecovery _ other _) => other = name
  | .operation (.recoverAccount other _ _) => other = name
  | _ => False

/-- A step that asks for another recovery account. -/
def Step.Redirects (name : String) : Step Key → Prop
  | .operation (.changeRecoveryAccount other _) => other = name
  | _ => False

/-- A request for a new owner authority, made by the one who could then make it, is neither
replaced nor cancelled nor used, and expires at a time. -/
def Requested (config : Config) (start : State Key) (steps : List (Step Key)) (name : String)
    (owner : Authority String Key) (expires : Nat) : Prop :=
  ∃ earlier partner later made, steps =
      earlier ++ .operation (.requestAccountRecovery partner name owner) :: later ∧
    run config start earlier = .ok made ∧
    (∃ account ∈ made.accounts, account.name = name ∧ made.partner account = some partner) ∧
    (∀ step ∈ later, ¬step.Settles name) ∧
    expires = made.headBlockTime + config.accountRecoveryRequestExpirationPeriod

/-- An authority was the owner authority of an account at a time. -/
def Owned (config : Config) (start : State Key) (steps : List (Step Key)) (name : String)
    (owner : Authority String Key) (time : Nat) : Prop :=
  ∃ earlier later held, steps = earlier ++ later ∧ run config start earlier = .ok held ∧
    (∃ account ∈ held.accounts, account.name = name ∧ account.owner = owner) ∧
    held.headBlockTime = time

/-- The last operation about the recovery account of an account names a partner, and the
change becomes effective at a time. -/
def ChangeRequested (config : Config) (start : State Key) (steps : List (Step Key)) (name : String)
    (partner : String) (effectiveOn : Nat) : Prop :=
  ∃ earlier later made, steps =
      earlier ++ .operation (.changeRecoveryAccount name partner) :: later ∧
    run config start earlier = .ok made ∧ (∀ step ∈ later, ¬step.Redirects name) ∧
    effectiveOn = made.headBlockTime + config.ownerAuthRecoveryPeriod

section Traces

variable {config : Config} {start : State Key} {steps : List (Step Key)} {name : String}
  {owner : Authority String Key} {time : Nat}

theorem Requested.extend (requested : Requested config start steps name owner time)
    {step : Step Key} (free : ¬step.Settles name) :
    Requested config start (steps ++ [step]) name owner time := by
  obtain ⟨earlier, partner, later, made, rfl, ran, could, quiet, expires⟩ := requested
  refine ⟨earlier, partner, later ++ [step], made, by simp, ran, could, ?_, expires⟩
  exact Table.forall_append_singleton quiet free

theorem Owned.extend (owned : Owned config start steps name owner time) (step : Step Key) :
    Owned config start (steps ++ [step]) name owner time := by
  obtain ⟨earlier, later, held, rfl, ran, account, at_⟩ := owned
  exact ⟨earlier, later ++ [step], held, by simp, ran, account, at_⟩

theorem ChangeRequested.extend {partner : String}
    (requested : ChangeRequested config start steps name partner time) {step : Step Key}
    (free : ¬step.Redirects name) :
    ChangeRequested config start (steps ++ [step]) name partner time := by
  obtain ⟨earlier, later, made, rfl, ran, quiet, effective⟩ := requested
  refine ⟨earlier, later ++ [step], made, by simp, ran, ?_, effective⟩
  exact Table.forall_append_singleton quiet free

end Traces

omit [DecidableEq Key] in
/-- The tables have been gone through since the clock has moved. -/
def settled (steps : List (Step Key)) : Bool :=
  steps.foldl (fun calm step => match step with
    | .operation _ => calm
    | .advance _ => false
    | .sweep => true) true

omit [DecidableEq Key] in
theorem settled_append (steps : List (Step Key)) (step : Step Key) :
    settled (steps ++ [step]) = match step with
      | .operation _ => settled steps
      | .advance _ => false
      | .sweep => true := by
  rw [settled, List.foldl_append]
  cases step <;> rfl

/-!
## The tables
-/

/-- There is one request for an account, and it goes back to the last one that was made. -/
structure RequestsTracked (config : Config) (start : State Key) (steps : List (Step Key))
    (state : State Key) : Prop where
  single : (state.requests.map RecoveryRequest.accountToRecover).Nodup
  requested : ∀ request ∈ state.requests, Requested config start steps request.accountToRecover
    request.newOwnerAuthority request.expires
  fresh : settled steps = true → ∀ request ∈ state.requests, state.headBlockTime < request.expires

/-- The history is in the order of time, and its authorities were owner authorities. -/
structure HistoryTracked (config : Config) (start : State Key) (steps : List (Step Key))
    (state : State Key) : Prop where
  ordered : state.history.Pairwise (fun one other => one.lastValidTime ≤ other.lastValidTime)
  past : ∀ entry ∈ state.history, entry.lastValidTime ≤ state.headBlockTime
  held : ∀ entry ∈ state.history,
    Owned config start steps entry.account entry.previousOwnerAuthority entry.lastValidTime
  recent : settled steps = true → ∀ entry ∈ state.history,
    state.headBlockTime ≤ entry.lastValidTime + config.ownerAuthRecoveryPeriod

/-- There is one change for an account, and it goes back to the last one that was asked for. -/
structure ChangesTracked (config : Config) (start : State Key) (steps : List (Step Key))
    (state : State Key) : Prop where
  single : (state.changes.map ChangeRequest.accountToRecover).Nodup
  changing : ∀ request ∈ state.changes, ChangeRequested config start steps
    request.accountToRecover request.recoveryAccount request.effectiveOn

section Tables

variable {config : Config} {start state next : State Key} {steps : List (Step Key)}
  {step : Step Key}

theorem RequestsTracked.extend (tracked : RequestsTracked config start steps state)
    (same : next.requests = state.requests)
    (free : ∀ request ∈ state.requests, ¬step.Settles request.accountToRecover)
    (calm : settled (steps ++ [step]) = true →
      settled steps = true ∧ next.headBlockTime = state.headBlockTime) :
    RequestsTracked config start (steps ++ [step]) next where
  single := same ▸ tracked.single
  requested := by
    rw [same]
    exact fun request member => (tracked.requested request member).extend (free request member)
  fresh := by
    intro after
    obtain ⟨before, time⟩ := calm after
    rw [same, time]
    exact tracked.fresh before

theorem HistoryTracked.extend (tracked : HistoryTracked config start steps state)
    (same : next.history = state.history) (time : state.headBlockTime ≤ next.headBlockTime)
    (calm : settled (steps ++ [step]) = true →
      settled steps = true ∧ next.headBlockTime = state.headBlockTime) :
    HistoryTracked config start (steps ++ [step]) next where
  ordered := same ▸ tracked.ordered
  past := by
    rw [same]
    exact fun entry member => (tracked.past entry member).trans time
  held := by
    rw [same]
    exact fun entry member => (tracked.held entry member).extend step
  recent := by
    intro after
    obtain ⟨before, still⟩ := calm after
    rw [same, still]
    exact tracked.recent before

theorem ChangesTracked.extend (tracked : ChangesTracked config start steps state)
    (same : next.changes = state.changes)
    (free : ∀ request ∈ state.changes, ¬step.Redirects request.accountToRecover) :
    ChangesTracked config start (steps ++ [step]) next where
  single := same ▸ tracked.single
  changing := by
    rw [same]
    exact fun request member => (tracked.changing request member).extend (free request member)

/-- The request for an account is removed. -/
theorem RequestsTracked.erase (tracked : RequestsTracked config start steps state) {name : String}
    (erased : next.requests =
      state.requests.eraseP (fun request => request.accountToRecover == name))
    (free : ∀ other, other ≠ name → ¬step.Settles other)
    (calm : settled (steps ++ [step]) = true →
      settled steps = true ∧ next.headBlockTime = state.headBlockTime) :
    RequestsTracked config start (steps ++ [step]) next where
  single := erased ▸ Table.nodup_eraseP tracked.single
  requested := by
    rw [erased]
    intro request member
    obtain ⟨listed, other⟩ := (Table.mem_eraseP_iff tracked.single).mp member
    exact (tracked.requested request listed).extend (free _ other)
  fresh := by
    intro after
    obtain ⟨before, time⟩ := calm after
    rw [erased, time]
    intro request member
    exact tracked.fresh before request (List.mem_of_mem_eraseP member)

/-- The request for an account is made, or made anew. -/
theorem RequestsTracked.put (tracked : RequestsTracked config start steps state) {name : String}
    {owner : Authority String Key} {expires : Nat}
    (put : ∀ request ∈ next.requests,
      request ∈ state.requests ∧ request.accountToRecover ≠ name ∨
        request = { accountToRecover := name, newOwnerAuthority := owner, expires := expires })
    (single : (next.requests.map RecoveryRequest.accountToRecover).Nodup)
    (requested : Requested config start (steps ++ [step]) name owner expires)
    (free : ∀ other, other ≠ name → ¬step.Settles other)
    (calm : settled (steps ++ [step]) = true →
      settled steps = true ∧ next.headBlockTime = state.headBlockTime)
    (later : next.headBlockTime < expires) :
    RequestsTracked config start (steps ++ [step]) next where
  single := single
  requested := by
    intro request member
    rcases put request member with ⟨listed, other⟩ | rfl
    · exact (tracked.requested request listed).extend (free _ other)
    · exact requested
  fresh := by
    intro after request member
    obtain ⟨before, time⟩ := calm after
    rcases put request member with ⟨listed, -⟩ | rfl
    · rw [time]
      exact tracked.fresh before request listed
    · exact later

/-- The owner authority of an account is recorded before it is replaced. -/
theorem HistoryTracked.push (tracked : HistoryTracked config start steps state)
    {entry : OwnerAuthorityHistory Key} (pushed : next.history = state.history ++ [entry])
    (now : entry.lastValidTime = state.headBlockTime)
    (owned : Owned config start steps entry.account entry.previousOwnerAuthority
      entry.lastValidTime)
    (time : next.headBlockTime = state.headBlockTime)
    (calm : settled (steps ++ [step]) = true → settled steps = true) :
    HistoryTracked config start (steps ++ [step]) next where
  ordered := by
    rw [pushed, List.pairwise_append]
    refine ⟨tracked.ordered, List.pairwise_singleton _ _, ?_⟩
    intro one member other last
    rw [List.mem_singleton.mp last, now]
    exact tracked.past one member
  past := by
    rw [pushed, time]
    exact Table.forall_append_singleton tracked.past now.le
  held := by
    rw [pushed]
    exact Table.forall_append_singleton
      (fun other member => (tracked.held other member).extend step) (owned.extend step)
  recent := by
    intro after
    rw [pushed, time]
    refine Table.forall_append_singleton (tracked.recent (calm after)) ?_
    omega

/-- The change for an account is taken back. -/
theorem ChangesTracked.erase (tracked : ChangesTracked config start steps state) {name : String}
    (erased : next.changes = state.changes.eraseP (fun request => request.accountToRecover == name))
    (free : ∀ other, other ≠ name → ¬step.Redirects other) :
    ChangesTracked config start (steps ++ [step]) next where
  single := erased ▸ Table.nodup_eraseP tracked.single
  changing := by
    rw [erased]
    intro request member
    obtain ⟨listed, other⟩ := (Table.mem_eraseP_iff tracked.single).mp member
    exact (tracked.changing request listed).extend (free _ other)

/-- The change for an account is asked for, or asked for anew. -/
theorem ChangesTracked.put (tracked : ChangesTracked config start steps state) {name : String}
    {partner : String} {effectiveOn : Nat}
    (put : ∀ request ∈ next.changes,
      request ∈ state.changes ∧ request.accountToRecover ≠ name ∨
        request = { accountToRecover := name, recoveryAccount := partner, effectiveOn := effectiveOn })
    (single : (next.changes.map ChangeRequest.accountToRecover).Nodup)
    (requested : ChangeRequested config start (steps ++ [step]) name partner effectiveOn)
    (free : ∀ other, other ≠ name → ¬step.Redirects other) :
    ChangesTracked config start (steps ++ [step]) next where
  single := single
  changing := by
    intro request member
    rcases put request member with ⟨listed, other⟩ | rfl
    · exact (tracked.changing request listed).extend (free _ other)
    · exact requested

end Tables

/-!
## The operations
-/

/-- The tables after a run of parts of blocks. -/
structure Tracked (config : Config) (start : State Key) (steps : List (Step Key))
    (state : State Key) : Prop where
  named : (state.accounts.map Account.name).Nodup
  requests : RequestsTracked config start steps state
  history : HistoryTracked config start steps state
  changes : ChangesTracked config start steps state

omit [DecidableEq Key] in
theorem getAccount_ok {state : State Key} {name : String} {account : Account Key}
    (found : state.getAccount name = .ok account) :
    account ∈ state.accounts ∧ account.name = name := by
  rw [State.getAccount, expect_ok_iff] at found
  exact ⟨List.mem_of_find?_eq_some found, by simpa using List.find?_some found⟩

omit [DecidableEq Key] in
theorem modifyAccount_named {name : String} {change : Account Key → Account Key}
    (same : ∀ account, (change account).name = account.name) {state : State Key}
    (named : (state.accounts.map Account.name).Nodup) :
    ((state.modifyAccount name change).accounts.map Account.name).Nodup := by
  rw [State.modifyAccount, Table.map_modifyFirst same]
  exact named

omit [DecidableEq Key] in
/-- The new owner authority, with the old one in the history from some block on. -/
theorem updateOwnerAuthority_frame (config : Config) (account : Account Key)
    (owner : Authority String Key) (state : State Key) :
    let next := state.updateOwnerAuthority config account owner
    (next.history = state.history ∨ next.history = state.history ++
      [{ account := account.name
         previousOwnerAuthority := account.owner
         lastValidTime := state.headBlockTime }]) ∧
    next.requests = state.requests ∧ next.changes = state.changes ∧
    next.headBlockTime = state.headBlockTime ∧
    next.accounts.map Account.name = state.accounts.map Account.name ∧
    next.accounts.map Account.recoveryAccount = state.accounts.map Account.recoveryAccount := by
  dsimp only [State.updateOwnerAuthority]
  split
  · exact ⟨Or.inr rfl, rfl, rfl, rfl, Table.map_modifyFirst (fun _ => rfl),
      Table.map_modifyFirst (fun _ => rfl)⟩
  · exact ⟨Or.inl rfl, rfl, rfl, rfl, Table.map_modifyFirst (fun _ => rfl),
      Table.map_modifyFirst (fun _ => rfl)⟩

omit [DecidableEq Key] in
/-- A request is made for an account, made anew or cancelled. -/
theorem createAccountRecovery_cases {config : Config} {name : String}
    {owner : Authority String Key} {state next : State Key}
    (single : (state.requests.map RecoveryRequest.accountToRecover).Nodup)
    (ran : state.createAccountRecovery config name owner = .ok next) :
    next = { state with requests := next.requests } ∧
      (next.requests = state.requests.eraseP (fun request => request.accountToRecover == name) ∨
        (next.requests.map RecoveryRequest.accountToRecover).Nodup ∧
        ∀ request ∈ next.requests,
          request ∈ state.requests ∧ request.accountToRecover ≠ name ∨
            request =
              { accountToRecover := name
                newOwnerAuthority := owner
                expires := state.headBlockTime + config.accountRecoveryRequestExpirationPeriod }) := by
  rw [State.createAccountRecovery] at ran
  split at ran
  · rename_i missing
    simp only [bind_ok_iff, pure_ok_iff] at ran
    obtain ⟨_, -, _, -, _, -, rfl⟩ := ran
    have fresh : ∀ request ∈ state.requests, request.accountToRecover ≠ name := by
      intro request member
      simpa using List.find?_eq_none.mp missing request member
    refine ⟨rfl, Or.inr ⟨Table.nodup_append_fresh single fresh, ?_⟩⟩
    exact Table.forall_append_singleton (fun request member => Or.inl ⟨member, fresh request member⟩)
      (Or.inr rfl)
  · rename_i previous found
    split at ran
    · rw [pure_ok_iff] at ran
      subst ran
      exact ⟨rfl, Or.inl rfl⟩
    · simp only [bind_ok_iff, pure_ok_iff] at ran
      obtain ⟨_, -, _, -, rfl⟩ := ran
      refine ⟨rfl, Or.inr ⟨Table.nodup_modifyFirst (fun _ => rfl) single, ?_⟩⟩
      · intro request member
        rcases (Table.mem_modifyFirst_iff single found).mp member with kept | changed
        · exact Or.inl kept
        · right
          have hit : previous.accountToRecover = name := by simpa using List.find?_some found
          rw [changed, ← hit]

omit [DecidableEq Key] in
/-- A change is asked for an account, asked for anew or taken back. -/
theorem changeRecoveryAccount_cases {config : Config} {name partner : String}
    {state next : State Key}
    (single : (state.changes.map ChangeRequest.accountToRecover).Nodup)
    (ran : state.changeRecoveryAccount config name partner = .ok next) :
    next = { state with changes := next.changes } ∧
      (next.changes = state.changes.eraseP (fun request => request.accountToRecover == name) ∨
        (next.changes.map ChangeRequest.accountToRecover).Nodup ∧
        ∀ request ∈ next.changes,
          request ∈ state.changes ∧ request.accountToRecover ≠ name ∨
            request =
              { accountToRecover := name
                recoveryAccount := partner
                effectiveOn := state.headBlockTime + config.ownerAuthRecoveryPeriod }) := by
  simp only [State.changeRecoveryAccount, bind_ok_iff] at ran
  obtain ⟨_, -, account, -, ran⟩ := ran
  split at ran
  · rename_i missing
    rw [pure_ok_iff] at ran
    subst ran
    have fresh : ∀ request ∈ state.changes, request.accountToRecover ≠ name := by
      intro request member
      simpa using List.find?_eq_none.mp missing request member
    refine ⟨rfl, Or.inr ⟨Table.nodup_append_fresh single fresh, ?_⟩⟩
    exact Table.forall_append_singleton (fun request member => Or.inl ⟨member, fresh request member⟩)
      (Or.inr rfl)
  · rename_i previous found
    split at ran
    · rw [pure_ok_iff] at ran
      subst ran
      refine ⟨rfl, Or.inr ⟨Table.nodup_modifyFirst (fun _ => rfl) single, ?_⟩⟩
      · intro request member
        rcases (Table.mem_modifyFirst_iff single found).mp member with kept | changed
        · exact Or.inl kept
        · right
          have hit : previous.accountToRecover = name := by simpa using List.find?_some found
          rw [changed, ← hit]
    · rw [pure_ok_iff] at ran
      subst ran
      exact ⟨rfl, Or.inl rfl⟩

omit [DecidableEq Key] in
theorem calm_operation (steps : List (Step Key)) (operation : Operation Key) :
    settled (steps ++ [.operation operation]) = true → settled steps = true := by
  rw [settled_append]
  exact id

section Operations

variable {config : Config} {start state next : State Key} {steps : List (Step Key)}

theorem updateOwnerAuthority_history {account : Account Key} (owner : Authority String Key)
    {step : Step Key} {name : String} (ran : run config start steps = .ok state)
    (tracked : HistoryTracked config start steps state)
    (found : state.getAccount name = .ok account)
    (pushed : next.history = (state.updateOwnerAuthority config account owner).history)
    (time : next.headBlockTime = state.headBlockTime)
    (calm : settled (steps ++ [step]) = true → settled steps = true) :
    HistoryTracked config start (steps ++ [step]) next := by
  obtain ⟨listed, -⟩ := getAccount_ok found
  obtain ⟨history, -⟩ := updateOwnerAuthority_frame config account owner state
  rcases history with same | added
  · exact tracked.extend (pushed.trans same) time.ge (fun after => ⟨calm after, time⟩)
  · refine tracked.push (pushed.trans added) rfl ?_ time calm
    exact ⟨steps, [], state, (List.append_nil steps).symm, ran, ⟨account, listed, rfl, rfl⟩, rfl⟩

theorem requestAccountRecovery_tracked {partner name : String} {owner : Authority String Key}
    (ran : run config start steps = .ok state) (tracked : Tracked config start steps state)
    (stepped : state.requestAccountRecovery config partner name owner = .ok next) :
    Tracked config start (steps ++ [.operation (.requestAccountRecovery partner name owner)]) next := by
  simp only [State.requestAccountRecovery, bind_ok_iff, require_ok_iff] at stepped
  obtain ⟨account, found, _, could, made⟩ := stepped
  obtain ⟨listed, named⟩ := getAccount_ok found
  obtain ⟨frame, cases_⟩ := createAccountRecovery_cases tracked.requests.single made
  have calm := calm_operation steps (.requestAccountRecovery partner name owner)
  have time : next.headBlockTime = state.headBlockTime := by rw [frame]
  have free : ∀ other, other ≠ name →
      ¬(Step.operation (.requestAccountRecovery partner name owner)).Settles other :=
    fun other differs same => differs same.symm
  have requests : RequestsTracked config start
      (steps ++ [.operation (.requestAccountRecovery partner name owner)]) next := by
    rcases cases_ with erased | ⟨single, put⟩
    · exact tracked.requests.erase erased free (fun after => ⟨calm after, time⟩)
    · refine tracked.requests.put put single ?_ free (fun after => ⟨calm after, time⟩) ?_
      · exact ⟨steps, partner, [], state, rfl, ran, ⟨account, listed, named, could⟩,
          fun _ member => absurd member List.not_mem_nil, rfl⟩
      · have lasting := config.lasting
        omega
  refine ⟨?_, requests, tracked.history.extend ?_ time.ge (fun after => ⟨calm after, time⟩),
    tracked.changes.extend ?_ (fun _ _ redirects => redirects)⟩
  · rw [frame]
    exact tracked.named
  · rw [frame]
  · rw [frame]

theorem recoverAccount_tracked {name : String} {newOwner recentOwner : Authority String Key}
    (ran : run config start steps = .ok state) (tracked : Tracked config start steps state)
    (stepped : state.recoverAccount config name newOwner recentOwner = .ok next) :
    Tracked config start (steps ++ [.operation (.recoverAccount name newOwner recentOwner)])
      next := by
  simp only [State.recoverAccount, bind_ok_iff, pure_ok_iff] at stepped
  obtain ⟨account, found, _, -, request, -, _, -, _, -, rfl⟩ := stepped
  have calm := calm_operation steps (.recoverAccount name newOwner recentOwner)
  obtain ⟨-, requests, changes, time, named, -⟩ := updateOwnerAuthority_frame config account newOwner
    { state with
      requests := state.requests.eraseP (fun request => request.accountToRecover == name) }
  constructor
  · apply modifyAccount_named
    · exact fun _ => rfl
    · rw [named]
      exact tracked.named
  · exact tracked.requests.erase requests (fun other differs same => differs same.symm)
      (fun after => ⟨calm after, time⟩)
  · refine updateOwnerAuthority_history newOwner ran tracked.history found ?_ time calm
    dsimp only [State.updateOwnerAuthority]
    split
    · rfl
    · rfl
  · exact tracked.changes.extend changes (fun _ _ redirects => redirects)

theorem updateAccount_tracked {name : String} {owner : Option (Authority String Key)}
    (ran : run config start steps = .ok state) (tracked : Tracked config start steps state)
    (stepped : state.updateAccount config name owner = .ok next) :
    Tracked config start (steps ++ [.operation (.updateAccount name owner)]) next := by
  simp only [State.updateAccount, bind_ok_iff] at stepped
  obtain ⟨account, found, stepped⟩ := stepped
  have calm := calm_operation steps (.updateAccount name owner)
  cases owner with
  | none =>
    rw [pure_ok_iff] at stepped
    subst stepped
    exact ⟨tracked.named,
      tracked.requests.extend rfl (fun _ _ settles => settles) (fun after => ⟨calm after, rfl⟩),
      tracked.history.extend rfl (Nat.le_refl _) (fun after => ⟨calm after, rfl⟩),
      tracked.changes.extend rfl (fun _ _ redirects => redirects)⟩
  | some owner =>
    simp only [bind_ok_iff, pure_ok_iff] at stepped
    obtain ⟨_, -, rfl⟩ := stepped
    obtain ⟨-, requests, changes, time, named, -⟩ :=
      updateOwnerAuthority_frame config account owner state
    constructor
    · rw [named]
      exact tracked.named
    · exact tracked.requests.extend requests (fun _ _ settles => settles)
        (fun after => ⟨calm after, time⟩)
    · exact updateOwnerAuthority_history owner ran tracked.history found rfl time calm
    · exact tracked.changes.extend changes (fun _ _ redirects => redirects)

theorem changeRecoveryAccount_tracked {name partner : String}
    (ran : run config start steps = .ok state) (tracked : Tracked config start steps state)
    (stepped : state.changeRecoveryAccount config name partner = .ok next) :
    Tracked config start (steps ++ [.operation (.changeRecoveryAccount name partner)]) next := by
  obtain ⟨frame, cases_⟩ := changeRecoveryAccount_cases tracked.changes.single stepped
  have calm := calm_operation steps (.changeRecoveryAccount name partner)
  have time : next.headBlockTime = state.headBlockTime := by rw [frame]
  have free : ∀ other, other ≠ name →
      ¬(.operation (.changeRecoveryAccount name partner) : Step Key).Redirects other :=
    fun other differs same => differs same.symm
  have changes : ChangesTracked config start
      (steps ++ [.operation (.changeRecoveryAccount name partner)]) next := by
    rcases cases_ with erased | ⟨single, put⟩
    · exact tracked.changes.erase erased free
    · refine tracked.changes.put put single ?_ free
      exact ⟨steps, [], state, rfl, ran, fun _ member => absurd member List.not_mem_nil, rfl⟩
  refine ⟨?_, tracked.requests.extend ?_ (fun _ _ settles => settles)
    (fun after => ⟨calm after, time⟩), tracked.history.extend ?_ time.ge
    (fun after => ⟨calm after, time⟩), changes⟩
  · rw [frame]
    exact tracked.named
  · rw [frame]
  · rw [frame]

theorem apply_tracked {operation : Operation Key} (ran : run config start steps = .ok state)
    (tracked : Tracked config start steps state) (stepped : state.apply config operation = .ok next) :
    Tracked config start (steps ++ [.operation operation]) next := by
  have calm := calm_operation steps operation
  cases operation with
  | createAccount name creator owner =>
    simp only [State.apply, State.createAccount, bind_ok_iff, require_ok_iff, pure_ok_iff] at stepped
    obtain ⟨_, -, _, fresh, rfl⟩ := stepped
    refine ⟨Table.nodup_append_fresh tracked.named ?_,
      tracked.requests.extend rfl (fun _ _ settles => settles) (fun after => ⟨calm after, rfl⟩),
      tracked.history.extend rfl (Nat.le_refl _) (fun after => ⟨calm after, rfl⟩),
      tracked.changes.extend rfl (fun _ _ redirects => redirects)⟩
    intro other member same
    have listed : other.name = name := same
    exact fresh (listed ▸ List.mem_map_of_mem member)
  | updateAccount name owner => exact updateAccount_tracked ran tracked stepped
  | requestAccountRecovery partner name owner =>
    exact requestAccountRecovery_tracked ran tracked stepped
  | recoverAccount name newOwner recentOwner => exact recoverAccount_tracked ran tracked stepped
  | changeRecoveryAccount name partner => exact changeRecoveryAccount_tracked ran tracked stepped
  | voteWitness top =>
    rw [State.apply, pure_ok_iff] at stepped
    subst stepped
    exact ⟨tracked.named,
      tracked.requests.extend rfl (fun _ _ settles => settles) (fun after => ⟨calm after, rfl⟩),
      tracked.history.extend rfl (Nat.le_refl _) (fun after => ⟨calm after, rfl⟩),
      tracked.changes.extend rfl (fun _ _ redirects => redirects)⟩

end Operations

/-!
## The sweep
-/

omit [DecidableEq Key] in
theorem mem_clearExpiredRequests {state : State Key} {request : RecoveryRequest Key} :
    request ∈ state.clearExpiredRequests.requests ↔
      request ∈ state.requests ∧ state.headBlockTime < request.expires := by
  have sorted := (List.perm_insertionSort
    (fun one other : RecoveryRequest Key => one.expires ≤ other.expires) state.requests)
  rw [State.clearExpiredRequests, mem_dropWhile_iff, sorted.mem_iff, decide_eq_false_iff_not,
    Nat.not_le]
  refine List.Pairwise.imp ?_ (List.pairwise_insertionSort _ _)
  intro one other before
  simp only [decide_eq_true_eq]
  omega

/-- The authorities that have been lost for too long come first. -/
theorem mem_clearHistory {config : Config} {start state : State Key} {steps : List (Step Key)}
    (tracked : HistoryTracked config start steps state) {entry : OwnerAuthorityHistory Key} :
    entry ∈ (state.clearHistory config).history ↔ entry ∈ state.history ∧
      state.headBlockTime ≤ entry.lastValidTime + config.ownerAuthRecoveryPeriod := by
  rw [State.clearHistory, mem_dropWhile_iff, decide_eq_false_iff_not, Nat.not_lt]
  refine List.Pairwise.imp ?_ tracked.ordered
  intro one other before
  simp only [decide_eq_true_eq]
  omega

omit [DecidableEq Key] in
theorem mem_due {state : State Key} {request : ChangeRequest}
    (member : request ∈ ((state.changes.insertionSort
      (fun one other => one.effectiveOn ≤ other.effectiveOn)).takeWhile
        (fun request => request.effectiveOn ≤ state.headBlockTime))) :
    request ∈ state.changes ∧ request.effectiveOn ≤ state.headBlockTime := by
  constructor
  · exact (List.mem_insertionSort _).mp ((List.takeWhile_sublist _).subset member)
  · simpa using List.mem_takeWhile_imp member

/-- An account keeps its recovery account, gets that of a change that is due, or is new. -/
def Redirected (due : List ChangeRequest) (accounts : List (Account Key)) (after : Account Key) :
    Prop :=
  after.name ∉ accounts.map Account.name ∨
    ∃ before ∈ accounts, before.name = after.name ∧
      (after.recoveryAccount = before.recoveryAccount ∨
        ∃ request ∈ due, request.accountToRecover = after.name ∧
          after.recoveryAccount = request.recoveryAccount)

section Sweep

variable {config : Config} {start state next : State Key} {steps : List (Step Key)}

omit [DecidableEq Key] in
theorem Redirected.same {due : List ChangeRequest} {accounts : List (Account Key)}
    {account : Account Key} (listed : account ∈ accounts) : Redirected due accounts account :=
  Or.inr ⟨account, listed, rfl, Or.inl rfl⟩

omit [DecidableEq Key] in
/-- A change of an account that is not one of its recovery account. -/
theorem Redirected.modify {due : List ChangeRequest} {accounts : List (Account Key)} {name : String}
    {change : Account Key → Account Key} (named : ∀ account, (change account).name = account.name)
    (recovery : ∀ account, (change account).recoveryAccount = account.recoveryAccount)
    (redirected : ∀ account ∈ state.accounts, Redirected due accounts account) :
    ∀ account ∈ (state.modifyAccount name change).accounts, Redirected due accounts account := by
  refine Table.forall_modifyFirst redirected ?_
  intro account _ before
  rw [Redirected, named, recovery]
  exact before

omit [DecidableEq Key] in
theorem applyChange_redirected {due : List ChangeRequest} {accounts : List (Account Key)}
    {request : ChangeRequest} (listed : request ∈ due)
    (redirected : ∀ account ∈ state.accounts, Redirected due accounts account)
    (ran : state.applyChange request = .ok next) :
    ∀ account ∈ next.accounts, Redirected due accounts account := by
  simp only [State.applyChange, bind_ok_iff, pure_ok_iff] at ran
  obtain ⟨account, found, rfl⟩ := ran
  obtain ⟨-, named⟩ := getAccount_ok found
  refine Table.forall_modifyFirst redirected ?_
  intro changed hit before
  have same : changed.name = account.name := by simpa using List.find?_some hit
  rcases before with fresh | ⟨earlier, member, kept, -⟩
  · exact Or.inl fresh
  · exact Or.inr ⟨earlier, member, kept, Or.inr ⟨request, listed, by rw [← named, ← same], rfl⟩⟩

omit [DecidableEq Key] in
/-- The changes that are due are applied, and all else stays. -/
theorem applyChanges_cases (ran : state.applyChanges = .ok next) :
    let sorted := state.changes.insertionSort (fun one other => one.effectiveOn ≤ other.effectiveOn)
    let due := sorted.takeWhile (fun request => request.effectiveOn ≤ state.headBlockTime)
    next = { state with
      accounts := next.accounts
      changes := sorted.dropWhile (fun request => request.effectiveOn ≤ state.headBlockTime) } ∧
    next.accounts.map Account.name = state.accounts.map Account.name ∧
    ∀ account ∈ next.accounts, Redirected due state.accounts account := by
  intro sorted due
  simp only [State.applyChanges, bind_ok_iff, pure_ok_iff] at ran
  obtain ⟨applied, looped, rfl⟩ := ran
  have kept := foldlM_invariant (fun rest reached => (∀ request ∈ rest, request ∈ due) ∧
    reached = { state with accounts := reached.accounts } ∧
    reached.accounts.map Account.name = state.accounts.map Account.name ∧
    ∀ account ∈ reached.accounts, Redirected due state.accounts account) ?_
    ⟨fun _ member => member, rfl, rfl, fun _ member => Redirected.same member⟩ looped
  · obtain ⟨-, frame, named, redirected⟩ := kept
    refine ⟨?_, named, redirected⟩
    rw [frame]
  · rintro request rest reached following ⟨listed, frame, named, redirected⟩ stepped
    rw [List.forall_mem_cons] at listed
    refine ⟨listed.2, ?_, ?_, applyChange_redirected listed.1 redirected stepped⟩
    · simp only [State.applyChange, bind_ok_iff, pure_ok_iff] at stepped
      obtain ⟨account, -, rfl⟩ := stepped
      rw [frame]
      rfl
    · simp only [State.applyChange, bind_ok_iff, pure_ok_iff] at stepped
      obtain ⟨account, -, rfl⟩ := stepped
      rw [← named]
      exact Table.map_modifyFirst (fun _ => rfl)

theorem sweep_tracked (tracked : Tracked config start steps state)
    (stepped : state.processAccountRecovery config = .ok next) :
    Tracked config start (steps ++ [.sweep]) next := by
  obtain ⟨frame, named, -⟩ := applyChanges_cases stepped
  have requests : ∀ request ∈ next.requests,
      request ∈ state.requests ∧ state.headBlockTime < request.expires := by
    rw [frame]
    exact fun request => mem_clearExpiredRequests.mp
  have history : ∀ entry ∈ next.history, entry ∈ state.history ∧
      state.headBlockTime ≤ entry.lastValidTime + config.ownerAuthRecoveryPeriod := by
    rw [frame]
    exact fun entry => (mem_clearHistory tracked.history).mp
  have time : next.headBlockTime = state.headBlockTime := by rw [frame]; rfl
  refine ⟨?_, ⟨?_, ?_, ?_⟩, ⟨?_, ?_, ?_, ?_⟩, ?_, ?_⟩
  · rw [named]
    exact tracked.named
  · rw [frame]
    exact nodup_dropWhile_insertionSort tracked.requests.single
  · intro request member
    exact (tracked.requests.requested request (requests request member).1).extend id
  · intro _ request member
    rw [time]
    exact (requests request member).2
  · rw [frame]
    exact tracked.history.ordered.sublist (List.dropWhile_sublist _)
  · intro entry member
    rw [time]
    exact tracked.history.past entry (history entry member).1
  · intro entry member
    exact (tracked.history.held entry (history entry member).1).extend _
  · intro _ entry member
    rw [time]
    exact (history entry member).2
  · rw [frame]
    exact nodup_dropWhile_insertionSort tracked.changes.single
  · rw [frame]
    intro request member
    have sorted := (List.dropWhile_sublist _).subset member
    exact (tracked.changes.changing request ((List.mem_insertionSort _).mp sorted)).extend id

theorem advance_tracked {timestamp : Nat} (tracked : Tracked config start steps state)
    (stepped : state.step config (.advance timestamp) = .ok next) :
    Tracked config start (steps ++ [.advance timestamp]) next := by
  simp only [State.step, bind_ok_iff, require_ok_iff, pure_ok_iff] at stepped
  obtain ⟨_, later, rfl⟩ := stepped
  have restless : settled (steps ++ [.advance timestamp]) = true → settled steps = true ∧
      timestamp = state.headBlockTime := by
    rw [settled_append]
    exact fun calm => absurd calm Bool.false_ne_true
  exact ⟨tracked.named, tracked.requests.extend rfl (fun _ _ settles => settles) restless,
    tracked.history.extend rfl later.le restless,
    tracked.changes.extend rfl (fun _ _ redirects => redirects)⟩

theorem step_tracked {step : Step Key} (ran : run config start steps = .ok state)
    (tracked : Tracked config start steps state) (stepped : state.step config step = .ok next) :
    Tracked config start (steps ++ [step]) next := by
  cases step with
  | operation operation => exact apply_tracked ran tracked stepped
  | advance timestamp => exact advance_tracked tracked stepped
  | sweep => exact sweep_tracked tracked stepped

theorem genesis_tracked (config : Config) {accounts : List (Account Key)} {topWitness : Option String}
    {time : Nat} (began : genesis accounts topWitness time = .ok start) :
    Tracked config start [] start := by
  simp only [genesis, bind_ok_iff, require_ok_iff, pure_ok_iff] at began
  obtain ⟨_, named, rfl⟩ := began
  refine ⟨named, ⟨List.nodup_nil, ?_, ?_⟩, ⟨List.Pairwise.nil, ?_, ?_, ?_⟩, List.nodup_nil, ?_⟩
  · exact fun _ member => absurd member List.not_mem_nil
  · exact fun _ _ member => absurd member List.not_mem_nil
  · exact fun _ member => absurd member List.not_mem_nil
  · exact fun _ member => absurd member List.not_mem_nil
  · exact fun _ _ member => absurd member List.not_mem_nil
  · exact fun _ member => absurd member List.not_mem_nil

/-- The tables after every run. -/
theorem run_tracked {accounts : List (Account Key)} {topWitness : Option String} {time : Nat}
    (began : genesis accounts topWitness time = .ok start)
    (ran : run config start steps = .ok state) : Tracked config start steps state := by
  induction steps using List.reverseRecOn generalizing state with
  | nil =>
    rw [run, List.foldlM_nil, pure_ok_iff] at ran
    exact ran ▸ genesis_tracked config began
  | append_singleton steps step hypothesis =>
    obtain ⟨reached, before, stepped⟩ := run_append_singleton ran
    exact step_tracked before (hypothesis before) stepped

end Sweep

/-!
## What a step may change
-/

/-- What a step of a run may do: a recovery needs a request that has not expired and an
authority that is recent enough, a recovery account is one that was asked for long enough
ago, and there is one request and one change for an account. -/
structure Guarded (config : Config) (start : State Key) (steps : List (Step Key))
    (state : State Key) (step : Step Key) (next : State Key) : Prop where
  recovers : ∀ name newOwner recentOwner,
    step = .operation (.recoverAccount name newOwner recentOwner) →
      (∃ expires, Requested config start steps name newOwner expires ∧
        state.headBlockTime < expires) ∧
      ∃ time, Owned config start steps name recentOwner time ∧
        state.headBlockTime ≤ time + config.ownerAuthRecoveryPeriod
  redirects : ∀ before ∈ state.accounts, ∀ after ∈ next.accounts, after.name = before.name →
    after.recoveryAccount ≠ before.recoveryAccount →
      ∃ effectiveOn,
        ChangeRequested config start steps after.name after.recoveryAccount effectiveOn ∧
        effectiveOn ≤ state.headBlockTime
  singleRequest : (next.requests.map RecoveryRequest.accountToRecover).Nodup
  singleChange : (next.changes.map ChangeRequest.accountToRecover).Nodup

section Steps

variable {config : Config} {start state next : State Key} {steps : List (Step Key)}

theorem recoverAccount_guarded {name : String} {newOwner recentOwner : Authority String Key}
    (tracked : Tracked config start steps state) (calm : settled steps = true)
    (stepped : state.recoverAccount config name newOwner recentOwner = .ok next) :
    (∃ expires, Requested config start steps name newOwner expires ∧
      state.headBlockTime < expires) ∧
    ∃ time, Owned config start steps name recentOwner time ∧
      state.headBlockTime ≤ time + config.ownerAuthRecoveryPeriod := by
  simp only [State.recoverAccount, bind_ok_iff, require_ok_iff, expect_ok_iff] at stepped
  obtain ⟨_, -, _, -, request, pending, _, rfl, _, recent, -⟩ := stepped
  have listed := List.mem_of_find?_eq_some pending
  have named : request.accountToRecover = name := by simpa using List.find?_some pending
  obtain ⟨entry, recorded, matching⟩ := List.any_eq_true.mp recent
  rw [Bool.and_eq_true, decide_eq_true_eq, decide_eq_true_eq] at matching
  obtain ⟨account, rfl⟩ := matching
  constructor
  · exact ⟨request.expires, named ▸ tracked.requests.requested request listed,
      tracked.requests.fresh calm request listed⟩
  · exact ⟨entry.lastValidTime, account ▸ tracked.history.held entry recorded,
      tracked.history.recent calm entry recorded⟩

omit [DecidableEq Key] in
theorem updateOwnerAuthority_redirected {account : Account Key} {owner : Authority String Key}
    {due : List ChangeRequest} {accounts : List (Account Key)}
    (redirected : ∀ account ∈ state.accounts, Redirected due accounts account) :
    ∀ other ∈ (state.updateOwnerAuthority config account owner).accounts,
      Redirected due accounts other := by
  dsimp only [State.updateOwnerAuthority]
  apply Redirected.modify
  · exact fun _ => rfl
  · exact fun _ => rfl
  · split
    · exact redirected
    · exact redirected

theorem apply_redirected {operation : Operation Key} (tracked : Tracked config start steps state)
    (stepped : state.apply config operation = .ok next) :
    ∀ account ∈ next.accounts, Redirected [] state.accounts account := by
  have unchanged : ∀ account ∈ state.accounts, Redirected [] state.accounts account :=
    fun _ => Redirected.same
  cases operation with
  | createAccount name creator owner =>
    simp only [State.apply, State.createAccount, bind_ok_iff, require_ok_iff, pure_ok_iff] at stepped
    obtain ⟨_, -, _, fresh, rfl⟩ := stepped
    exact Table.forall_append_singleton unchanged (Or.inl fresh)
  | updateAccount name owner =>
    simp only [State.apply, State.updateAccount, bind_ok_iff] at stepped
    obtain ⟨account, -, stepped⟩ := stepped
    cases owner with
    | none =>
      rw [pure_ok_iff] at stepped
      exact stepped ▸ unchanged
    | some owner =>
      simp only [bind_ok_iff, pure_ok_iff] at stepped
      obtain ⟨_, -, rfl⟩ := stepped
      exact updateOwnerAuthority_redirected unchanged
  | requestAccountRecovery partner name owner =>
    simp only [State.apply, State.requestAccountRecovery, bind_ok_iff] at stepped
    obtain ⟨_, -, _, -, made⟩ := stepped
    rw [(createAccountRecovery_cases tracked.requests.single made).1]
    exact unchanged
  | recoverAccount name newOwner recentOwner =>
    simp only [State.apply, State.recoverAccount, bind_ok_iff, pure_ok_iff] at stepped
    obtain ⟨account, -, _, -, request, -, _, -, _, -, rfl⟩ := stepped
    apply Redirected.modify
    · exact fun _ => rfl
    · exact fun _ => rfl
    · exact updateOwnerAuthority_redirected unchanged
  | changeRecoveryAccount name partner =>
    rw [(changeRecoveryAccount_cases tracked.changes.single stepped).1]
    exact unchanged
  | voteWitness top =>
    rw [State.apply, pure_ok_iff] at stepped
    exact stepped ▸ unchanged

/-- Every change of a recovery account is one that has become effective. -/
theorem step_redirected {step : Step Key} (tracked : Tracked config start steps state)
    (stepped : state.step config step = .ok next) :
    ∃ due, (∀ request ∈ due, request ∈ state.changes ∧ request.effectiveOn ≤ state.headBlockTime) ∧
      ∀ account ∈ next.accounts, Redirected due state.accounts account := by
  cases step with
  | operation operation =>
    exact ⟨[], fun _ member => absurd member List.not_mem_nil, apply_redirected tracked stepped⟩
  | advance timestamp =>
    simp only [State.step, bind_ok_iff, pure_ok_iff] at stepped
    obtain ⟨_, -, rfl⟩ := stepped
    exact ⟨[], fun _ member => absurd member List.not_mem_nil, fun _ => Redirected.same⟩
  | sweep =>
    obtain ⟨-, -, redirected⟩ := applyChanges_cases stepped
    exact ⟨_, fun request => mem_due, redirected⟩

theorem step_guarded {step : Step Key} (ran : run config start steps = .ok state)
    (tracked : Tracked config start steps state)
    (calm : ∀ name newOwner recentOwner,
      step = .operation (.recoverAccount name newOwner recentOwner) → settled steps = true)
    (stepped : state.step config step = .ok next) :
    Guarded config start steps state step next := by
  have after := step_tracked ran tracked stepped
  refine ⟨?_, ?_, after.requests.single, after.changes.single⟩
  · rintro name newOwner recentOwner rfl
    exact recoverAccount_guarded tracked (calm name newOwner recentOwner rfl) stepped
  · intro before listed changed member named differs
    obtain ⟨due, effective, redirected⟩ := step_redirected tracked stepped
    rcases redirected changed member with fresh | ⟨earlier, kept, same, recovery⟩
    · exact absurd (named ▸ List.mem_map_of_mem listed) fresh
    · have equal : earlier = before :=
        List.inj_on_of_nodup_map tracked.named kept listed (same.trans named)
      rcases recovery with unchanged | ⟨request, due, account, recovery⟩
      · exact absurd (equal ▸ unchanged) differs
      · obtain ⟨pending, reached⟩ := effective request due
        refine ⟨request.effectiveOn, ?_, reached⟩
        rw [← account, recovery]
        exact tracked.changes.changing request pending

end Steps

/-!
## Blocks
-/

/-- No account is recovered by a proposal that is executed because it expires. -/
def Block.Orderly (block : Block Key) : Prop :=
  ∀ name newOwner recentOwner, .recoverAccount name newOwner recentOwner ∉ block.expired

section Blocks

omit [DecidableEq Key]

variable {before after : List (Step Key)} {name : String}
  {newOwner recentOwner : Authority String Key}

theorem settled_sweep (before after : List (Step Key)) :
    settled (before ++ [.sweep] ++ after) = settled after := by
  rw [settled, List.foldl_append, List.foldl_append]
  rfl

theorem settled_operations {operations : List (Operation Key)}
    (front : before <+: operations.map .operation) : settled before = true := by
  induction before using List.reverseRecOn with
  | nil => rfl
  | append_singleton before step hypothesis =>
    have earlier := hypothesis ((List.prefix_append before [step]).trans front)
    have listed := front.subset (List.mem_append_right before List.mem_cons_self)
    obtain ⟨operation, -, rfl⟩ := List.mem_map.mp listed
    rw [settled_append]
    exact earlier

/-- In an orderly block accounts are recovered by the transactions only. -/
theorem Block.settled_of_steps {block : Block Key} (orderly : block.Orderly)
    (split : block.steps = before ++ .operation (.recoverAccount name newOwner recentOwner) :: after) :
    settled before = true := by
  rw [Block.steps, List.append_assoc, List.append_assoc, List.append_eq_append_iff] at split
  rcases split with ⟨behind, -, rest⟩ | ⟨behind, front, -⟩
  · have listed : .operation (.recoverAccount name newOwner recentOwner) ∈
        [.advance block.timestamp] ++ (block.expired.map Step.operation ++ [.sweep]) := by
      rw [rest]
      exact List.mem_append_right behind List.mem_cons_self
    simp only [List.mem_append, List.mem_singleton, List.mem_map, reduceCtorEq, false_or,
      or_false, Step.operation.injEq, exists_eq_right] at listed
    exact absurd listed (orderly name newOwner recentOwner)
  · exact settled_operations ⟨behind, front.symm⟩

theorem settled_of_blocks {blocks : List (Block Key)} (orderly : ∀ block ∈ blocks, block.Orderly)
    (split : blocks.flatMap Block.steps =
      before ++ .operation (.recoverAccount name newOwner recentOwner) :: after) :
    settled before = true := by
  induction blocks generalizing before with
  | nil => simp at split
  | cons block rest hypothesis =>
    rw [List.forall_mem_cons] at orderly
    rw [List.flatMap_cons, List.append_eq_append_iff] at split
    rcases split with ⟨behind, rfl, later⟩ | ⟨behind, front, later⟩
    · rw [Block.steps, settled_sweep]
      exact hypothesis orderly.2 later
    · cases behind with
      | nil =>
        rw [List.append_nil] at front
        rw [← front, ← List.append_nil block.steps, Block.steps, settled_sweep]
        rfl
      | cons step behind =>
        rw [List.cons_append, List.cons.injEq] at later
        rw [← later.1] at front
        exact Block.settled_of_steps orderly.1 front

end Blocks

/-- In every run of blocks in which no expiring proposal recovers an account, every step is
guarded. -/
theorem run_recovery {config : Config} {accounts : List (Account Key)} {topWitness : Option String}
    {time : Nat} {start state next : State Key} {blocks : List (Block Key)}
    {before after : List (Step Key)} {step : Step Key}
    (began : genesis accounts topWitness time = .ok start)
    (orderly : ∀ block ∈ blocks, block.Orderly)
    (split : blocks.flatMap Block.steps = before ++ step :: after)
    (ran : run config start before = .ok state) (stepped : state.step config step = .ok next) :
    Guarded config start before state step next := by
  refine step_guarded ran (run_tracked began ran) ?_ stepped
  rintro name newOwner recentOwner rfl
  exact settled_of_blocks orderly split

namespace Sample

/-- An authority of one key. -/
def single (key : String) : Authority String String :=
  { weightThreshold := 1, accountAuths := [], keyAuths := [(key, 1)] }

/-- Alice has named Bob, who is on his own. -/
def accounts : List (Account String) :=
  [{ name := "alice"
     recoveryAccount := "bob"
     lastAccountRecovery := 0
     owner := single "first"
     lastOwnerUpdate := 0 },
   { name := "bob"
     recoveryAccount := ""
     lastAccountRecovery := 0
     owner := single "helper"
     lastOwnerUpdate := 0 }]

/-- A thief replaces Alice's owner authority, and Bob requests its recovery. -/
def theft : List (Block String) :=
  [{ timestamp := 3, transactions := [], expired := [] },
   { timestamp := 6
     transactions := [.updateAccount "alice" (some (single "stolen")),
       .requestAccountRecovery "bob" "alice" (single "new")]
     expired := [] }]

/-- Alice confirms it with the authority that she has lost. -/
def confirmation : Operation String :=
  .recoverAccount "alice" (single "new") (single "first")

/-- The state after the genesis. -/
def started : State String :=
  { accounts := accounts
    requests := []
    history := []
    changes := []
    topWitness := none
    headBlockNum := 0
    headBlockTime := 0 }

/-- She does so in time, in a transaction. -/
def recovery : List (Block String) :=
  theft ++ [{ timestamp := 9, transactions := [confirmation], expired := [] }]

theorem recovery_guarded :
    ∃ state next, run testNet started (theft.flatMap Block.steps) = .ok state ∧
      state.step testNet (.operation confirmation) = .ok next ∧
      Guarded testNet started (theft.flatMap Block.steps) state (.operation confirmation) next := by
  obtain ⟨state, ran, works⟩ := exists_ok_of_any
    (run testNet started (theft.flatMap Block.steps))
    (fun state => (state.step testNet (.operation confirmation)).isOk) (by decide +kernel)
  obtain ⟨next, stepped⟩ := exists_ok _ works
  have orderly : ∀ block ∈ recovery, block.Orderly := by
    simp [recovery, theft, Block.Orderly]
  have began : genesis accounts none 0 = .ok started := rfl
  have split : recovery.flatMap Block.steps =
      theft.flatMap Block.steps ++ .operation confirmation :: [.advance 9, .sweep] := rfl
  exact ⟨state, next, ran, stepped, run_recovery began orderly split ran stepped⟩

/-- She does so late, in a proposal that expires then. -/
def lateRecovery : List (Block String) :=
  theft ++ [{ timestamp := 18, transactions := [], expired := [confirmation] }]

/-- What comes before her confirmation. -/
def beforeLateRecovery : List (Step String) := theft.flatMap Block.steps ++ [.advance 18]

theorem request_of_bob {expires : Nat}
    (requested : Requested testNet started beforeLateRecovery "alice" (single "new") expires) :
    expires ≤ 18 := by
  obtain ⟨earlier, partner, later, made, split, ran, -, -, rfl⟩ := requested
  -- The fourth step is the only request.
  have place : earlier = beforeLateRecovery.take 3 := by
    simp [beforeLateRecovery, theft, Block.steps, List.cons_eq_append_iff] at split ⊢
    grind
  have clock : (run testNet started (beforeLateRecovery.take 3)).toOption.all
      (fun reached => reached.headBlockTime = 3) = true := by decide +kernel
  rw [← place, ran] at clock
  have time : made.headBlockTime = 3 := by simpa [Except.toOption] using clock
  rw [time]
  decide

/-- The recovery of an account takes effect after its request has expired. -/
theorem late_recovery_unguarded :
    ∃ state next, genesis accounts none 0 = .ok started ∧
      lateRecovery.flatMap Block.steps =
        beforeLateRecovery ++ .operation confirmation :: [.sweep] ∧
      run testNet started beforeLateRecovery = .ok state ∧
      state.step testNet (.operation confirmation) = .ok next ∧
      ¬Guarded testNet started beforeLateRecovery state (.operation confirmation) next := by
  obtain ⟨state, ran, works⟩ := exists_ok_of_any (run testNet started beforeLateRecovery)
    (fun state => state.headBlockTime == 18 &&
      (state.step testNet (.operation confirmation)).isOk) (by decide +kernel)
  rw [Bool.and_eq_true, beq_iff_eq] at works
  obtain ⟨time, works⟩ := works
  obtain ⟨next, stepped⟩ := exists_ok _ works
  refine ⟨state, next, rfl, rfl, ran, stepped, fun guarded => ?_⟩
  obtain ⟨⟨expires, requested, later⟩, -⟩ := guarded.recovers _ _ _ rfl
  have expired := request_of_bob requested
  omega

end Sample

end DeipChain.Recovery
