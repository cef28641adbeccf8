import Mathlib.Data.List.Dedup
import DeipChain.Ledger.Ballots
import DeipChain.Lib.Rooted

/-!
# Chains of proxies

An account that names a proxy leaves its votes to it, and the proxy may name another one. Only
the chain of a new proxy is looked at when it is set, not the accounts that have the changed
account for a proxy. Still no chain ever runs in a circle: a circle that the new edge closes runs
through the chain that is looked at.

The walk along that chain ends because the set of its accounts grows. The walk of a change of
votes ends because its depth grows.
-/
namespace DeipChain.Ledger

open DeipChain.Result DeipChain.Table Relation

/-! ## The graph of proxies -/

/-- The proxy of an account, if it has one. -/
def proxyOf (state : State) (name : Name) : Option Name :=
  (state.accounts.find? fun account => account.name == name).bind fun account =>
    if account.proxy = proxyToSelf then none else some account.proxy

def ProxiesTo (state : State) (name proxy : Name) : Prop :=
  proxyOf state name = some proxy

/-- What a chain comes to after a number of proxies. -/
def follow (state : State) : Nat → Name → Option Name
  | 0, name => some name
  | count + 1, name => (proxyOf state name).bind (follow state count)

/-- No account is its own proxy through others. -/
def Acyclic (state : State) : Prop :=
  ∀ name, ¬ TransGen (ProxiesTo state) name name

/-- Accounts are told apart by their names and by their numbers, proxies are accounts, and their
    chains end. -/
structure Linked (state : State) : Prop where
  names : (state.accounts.map Account.name).Nodup
  ids : (state.accounts.map Account.id).Nodup
  known : ∀ account ∈ state.accounts, account.proxy ≠ proxyToSelf →
    ∃ proxy ∈ state.accounts, proxy.name = account.proxy
  acyclic : Acyclic state

section Graph

variable {state other : State} {account proxy : Account}

theorem proxyOf_member (names : (state.accounts.map Account.name).Nodup)
    (member : account ∈ state.accounts) :
    proxyOf state account.name =
      if account.proxy = proxyToSelf then none else some account.proxy := by
  rw [proxyOf, find?_of_nodup names member]
  rfl

/-- Proxies depend on the names and the proxies of the accounts alone. -/
theorem proxyOf_voices (state : State) (name : Name) :
    proxyOf state name = ((state.accounts.map Account.voice).find? fun voice =>
      voice.2.1 == name).bind fun voice =>
        if voice.2.2 = proxyToSelf then none else some voice.2.2 := by
  rw [List.find?_map, Option.bind_map]
  rfl

theorem proxyOf_congr (same : state.accounts.map Account.voice = other.accounts.map Account.voice) :
    proxyOf state = proxyOf other := by
  funext name
  rw [proxyOf_voices, proxyOf_voices, same]

theorem proxiesTo_congr (same : state.accounts.map Account.voice = other.accounts.map Account.voice) :
    ProxiesTo state = ProxiesTo other := by
  funext name proxy
  rw [ProxiesTo, ProxiesTo, proxyOf_congr same]

theorem follow_congr (same : state.accounts.map Account.voice = other.accounts.map Account.voice) :
    follow state = follow other := by
  funext count
  induction count with
  | zero => rfl
  | succ count hypothesis =>
    funext name
    rw [follow, follow, proxyOf_congr same, hypothesis]

theorem names_voices (state : State) :
    state.accounts.map Account.name = (state.accounts.map Account.voice).map fun voice => voice.2.1 := by
  rw [List.map_map]
  rfl

theorem ids_voices (state : State) :
    state.accounts.map Account.id = (state.accounts.map Account.voice).map fun voice => voice.1 := by
  rw [List.map_map]
  rfl

/-- Proxies are accounts, told by the names alone. -/
theorem known_iff : (∀ account ∈ state.accounts, account.proxy ≠ proxyToSelf →
      ∃ proxy ∈ state.accounts, proxy.name = account.proxy) ↔
    ∀ voice ∈ state.accounts.map Account.voice, voice.2.2 ≠ proxyToSelf →
      ∃ row ∈ state.accounts.map Account.voice, row.2.1 = voice.2.2 := by
  simp only [List.mem_map, forall_exists_index, and_imp, forall_apply_eq_imp_iff₂, exists_exists_and_eq_and]
  rfl

theorem Linked.congr (linked : Linked state)
    (same : state.accounts.map Account.voice = other.accounts.map Account.voice) : Linked other where
  names := by
    rw [names_voices, ← same, ← names_voices]
    exact linked.names
  ids := by
    rw [ids_voices, ← same, ← ids_voices]
    exact linked.ids
  known := by
    rw [known_iff, ← same, ← known_iff]
    exact linked.known
  acyclic name := by
    rw [← proxiesTo_congr same]
    exact linked.acyclic name

/-- The account of a proxy. -/
theorem Linked.getProxy (linked : Linked state) (member : account ∈ state.accounts)
    (proxied : account.proxy ≠ proxyToSelf) :
    ∃ next ∈ state.accounts, state.getAccount account.proxy = .ok next ∧ next.name = account.proxy ∧
      ProxiesTo state account.name next.name := by
  obtain ⟨next, listed, named⟩ := linked.known account member proxied
  refine ⟨next, listed, ?_, named, ?_⟩
  · rw [State.getAccount, expect_ok_iff, ← named]
    exact find?_of_nodup linked.names listed
  · rw [ProxiesTo, proxyOf_member linked.names member, if_neg proxied, named]

/-- A chain from an account goes through its proxy. -/
theorem reaches_iff (proxied : ProxiesTo state account.name proxy.name) {name : Name} (elsewhere : account.name ≠ name) :
    ReflTransGen (ProxiesTo state) account.name name ↔
      ReflTransGen (ProxiesTo state) proxy.name name := by
  constructor
  · intro walk
    rcases ReflTransGen.cases_head walk with same | ⟨next, step, rest⟩
    · exact absurd same elsewhere
    · have only : next = proxy.name := Option.some_inj.mp (step.symm.trans proxied)
      exact only ▸ rest
  · exact ReflTransGen.head proxied

/-- A chain from an account without a proxy ends at it. -/
theorem reaches_end (unproxied : proxyOf state account.name = none) {name : Name}
    (walk : ReflTransGen (ProxiesTo state) account.name name) : account.name = name := by
  rcases ReflTransGen.cases_head walk with same | ⟨next, step, _⟩
  · exact same
  · cases unproxied.symm.trans step

end Graph

/-! ## The walk along the chain of a new proxy -/

/-- The loop of the check, with nothing that bounds it. -/
inductive ChainWalk (state : State) : List Nat → Account → Except String Unit → Prop
  | ends {chain : List Nat} {proxy : Account} (last : proxy.proxy = proxyToSelf) :
      ChainWalk state chain proxy (.ok ())
  | unknown {chain : List Nat} {proxy : Account} {error : String}
      (more : proxy.proxy ≠ proxyToSelf) (lost : state.getAccount proxy.proxy = .error error) :
      ChainWalk state chain proxy (.error error)
  | loop {chain : List Nat} {proxy next : Account} (more : proxy.proxy ≠ proxyToSelf)
      (got : state.getAccount proxy.proxy = .ok next) (again : next.id ∈ chain) :
      ChainWalk state chain proxy (.error "This proxy would create a proxy loop.")
  | long {chain : List Nat} {proxy next : Account} (more : proxy.proxy ≠ proxyToSelf)
      (got : state.getAccount proxy.proxy = .ok next) (fresh : next.id ∉ chain)
      (full : maxProxyRecursionDepth < chain.length + 1) :
      ChainWalk state chain proxy (.error "Proxy chain is too long.")
  | step {chain : List Nat} {proxy next : Account} {result : Except String Unit}
      (more : proxy.proxy ≠ proxyToSelf) (got : state.getAccount proxy.proxy = .ok next)
      (fresh : next.id ∉ chain) (room : chain.length + 1 ≤ maxProxyRecursionDepth)
      (rest : ChainWalk state (next.id :: chain) next result) : ChainWalk state chain proxy result

/-- The walk comes to its end before the bound of the model, with the result of the model. -/
theorem walk_check {state : State} {fuel : Nat} {chain : List Nat} {proxy : Account}
    (short : chain.length ≤ maxProxyRecursionDepth)
    (enough : maxProxyRecursionDepth < chain.length + fuel) :
    ChainWalk state chain proxy (checkProxyChain state fuel chain proxy) := by
  induction fuel generalizing chain proxy with
  | zero => omega
  | succ fuel hypothesis =>
    rw [checkProxyChain]
    by_cases last : proxy.proxy = proxyToSelf
    · rw [if_pos last]
      exact .ends last
    · rw [if_neg last]
      cases got : state.getAccount proxy.proxy with
      | error error => exact .unknown last got
      | ok next =>
        show ChainWalk state chain proxy (do
          require (next.id ∉ chain) "This proxy would create a proxy loop."
          require ((next.id :: chain).length ≤ maxProxyRecursionDepth) "Proxy chain is too long."
          checkProxyChain state fuel (next.id :: chain) next)
        by_cases again : next.id ∈ chain
        · rw [require, if_neg (not_not.mpr again)]
          exact .loop last got again
        · by_cases room : (next.id :: chain).length ≤ maxProxyRecursionDepth
          · rw [require, if_pos again, require, if_pos room]
            rw [List.length_cons] at room
            exact .step last got again room
              (hypothesis (by rwa [List.length_cons]) (by rw [List.length_cons]; omega))
          · rw [require, if_pos again, require, if_neg room]
            rw [List.length_cons, not_le] at room
            exact .long last got again room

/-- The walk has one result. -/
theorem ChainWalk.unique {state : State} {chain : List Nat} {proxy : Account}
    {first second : Except String Unit} (one : ChainWalk state chain proxy first)
    (two : ChainWalk state chain proxy second) : first = second := by
  induction one with
  | ends last =>
    cases two with
    | ends => rfl
    | unknown more => exact absurd last more
    | loop more => exact absurd last more
    | long more => exact absurd last more
    | step more => exact absurd last more
  | unknown more lost =>
    cases two with
    | ends last => exact absurd last more
    | unknown _ missing =>
      obtain rfl := Except.error.inj (lost.symm.trans missing)
      rfl
    | loop _ got => cases lost.symm.trans got
    | long _ got => cases lost.symm.trans got
    | step _ got => cases lost.symm.trans got
  | loop more got again =>
    cases two with
    | ends last => exact absurd last more
    | unknown _ missing => cases got.symm.trans missing
    | loop => rfl
    | long _ found fresh => exact absurd again (Except.ok.inj (got.symm.trans found) ▸ fresh)
    | step _ found fresh => exact absurd again (Except.ok.inj (got.symm.trans found) ▸ fresh)
  | long more got fresh full =>
    cases two with
    | ends last => exact absurd last more
    | unknown _ missing => cases got.symm.trans missing
    | loop _ found again => exact absurd again (Except.ok.inj (got.symm.trans found) ▸ fresh)
    | long => rfl
    | step _ _ _ room => omega
  | step more got fresh room _ hypothesis =>
    cases two with
    | ends last => exact absurd last more
    | unknown _ missing => cases got.symm.trans missing
    | loop _ found again => exact absurd again (Except.ok.inj (got.symm.trans found) ▸ fresh)
    | long _ _ _ full => omega
    | step _ found _ _ rest =>
      obtain rfl := Except.ok.inj (got.symm.trans found)
      exact hypothesis rest

/-- The accounts of a chain before one: the changed account, and others whose chains lead to it. -/
def Passed (state : State) (account proxy : Account) (chain : List Nat) : Prop :=
  account.id ∈ chain ∧ ∀ id ∈ chain, id = account.id ∨
    ∃ row ∈ state.accounts, row.id = id ∧ ReflTransGen (ProxiesTo state) row.name proxy.name

theorem Linked.eq_of_id {state : State} (linked : Linked state) {first second : Account}
    (one : first ∈ state.accounts) (two : second ∈ state.accounts) (same : first.id = second.id) :
    first = second :=
  List.inj_on_of_nodup_map linked.ids one two same

theorem Linked.eq_of_name {state : State} (linked : Linked state) {first second : Account}
    (one : first ∈ state.accounts) (two : second ∈ state.accounts) (same : first.name = second.name) :
    first = second :=
  List.inj_on_of_nodup_map linked.names one two same

/-- The check of a chain passes exactly if the chain does not come to the changed account and ends
    within what is left of the limit. -/
theorem checkProxyChain_ok_iff {state : State} (linked : Linked state) {account : Account}
    (changed : account ∈ state.accounts) {fuel : Nat} {chain : List Nat} {proxy : Account}
    (listed : proxy ∈ state.accounts) (apart : proxy ≠ account)
    (passed : Passed state account proxy chain) (short : chain.length ≤ maxProxyRecursionDepth)
    (enough : maxProxyRecursionDepth < chain.length + fuel) :
    checkProxyChain state fuel chain proxy = .ok () ↔
      ¬ ReflTransGen (ProxiesTo state) proxy.name account.name ∧
        follow state (maxProxyRecursionDepth + 1 - chain.length) proxy.name = none := by
  have elsewhere : proxy.name ≠ account.name := fun same =>
    apart (linked.eq_of_name listed changed same)
  induction fuel generalizing chain proxy with
  | zero => omega
  | succ fuel hypothesis =>
    obtain ⟨left, room⟩ : ∃ left, maxProxyRecursionDepth + 1 - chain.length = left + 1 :=
      ⟨maxProxyRecursionDepth - chain.length, by omega⟩
    rw [checkProxyChain, room, follow]
    by_cases last : proxy.proxy = proxyToSelf
    · have unproxied : proxyOf state proxy.name = none := by
        rw [proxyOf_member linked.names listed, if_pos last]
      rw [if_pos last, unproxied]
      refine ⟨fun _ => ⟨fun walk => elsewhere (reaches_end unproxied walk), rfl⟩, fun _ => rfl⟩
    · obtain ⟨next, there, got, named, step⟩ := linked.getProxy listed last
      rw [if_neg last, got, show proxyOf state proxy.name = some next.name from step,
        reaches_iff step elsewhere]
      simp only [bind_ok_iff, Except.ok.injEq, exists_eq_left', require_ok_iff, exists_const,
        Option.bind_some, List.length_cons]
      by_cases again : next.id ∈ chain
      · -- the proxy is the changed account, or it closed a circle before
        have closes : ReflTransGen (ProxiesTo state) next.name account.name := by
          rcases passed.2 next.id again with same | ⟨row, member, same, walk⟩
          · rw [linked.eq_of_id there changed same]
          · rw [linked.eq_of_id member there same] at walk
            exact absurd (TransGen.head' step walk) (linked.acyclic proxy.name)
        exact ⟨fun refused => absurd again refused.1, fun free => absurd closes free.1⟩
      · by_cases space : chain.length + 1 ≤ maxProxyRecursionDepth
        · have fresh : next ≠ account := by
            rintro rfl
            exact again passed.1
          have behind : Passed state account next (next.id :: chain) := by
            refine ⟨List.mem_cons_of_mem _ passed.1, ?_⟩
            intro id member
            rcases List.mem_cons.mp member with rfl | member
            · exact .inr ⟨next, there, rfl, .refl⟩
            · rcases passed.2 id member with same | ⟨row, kept, same, walk⟩
              · exact .inl same
              · exact .inr ⟨row, kept, same, .tail walk step⟩
          have rest := hypothesis there fresh behind (by rwa [List.length_cons])
            (by rw [List.length_cons]; omega) fun same => fresh (linked.eq_of_name there changed same)
          have count : maxProxyRecursionDepth + 1 - (next.id :: chain).length = left := by
            rw [List.length_cons]
            omega
          rw [count] at rest
          exact ⟨fun passes => rest.mp passes.2.2, fun free => ⟨again, space, rest.mpr free⟩⟩
        · have none : left = 0 := by omega
          rw [none, follow]
          exact ⟨fun passes => absurd passes.2.1 space, fun free => absurd free.2 (Option.some_ne_none _)⟩

/-! ## The recursion of a change of votes -/

/-- What a change of votes does to the account at which it arrives. -/
def changeOwn (delta : Int) (state : State) (account : Account) (_left : Nat) : Except String State :=
  adjustWitnessVotes state account delta

/-- Of an array of changes it takes those of the levels that the way here left. -/
def changeOwnArray (deltas : List Int) (state : State) (account : Account) (left : Nat) :
    Except String State :=
  adjustWitnessVotes state account (deltas.take (left + 1)).sum

/-- A change of votes goes up to the limit of depth, at which it stops at an account with a proxy,
    or it comes to an account without one before, whose own votes it changes. -/
def RecursionEnds (adjust : State → Account → Nat → Except String State) (remaining : Nat)
    (state : State) (account : Account) (result : Except String State) : Prop :=
  ∃ count last accounts, count ≤ remaining ∧
    accounts.map Account.voice = state.accounts.map Account.voice ∧
    follow state count account.name = some last.name ∧
    (last.proxy = proxyToSelf ∧ result = adjust { state with accounts } last (remaining - count) ∨
      last.proxy ≠ proxyToSelf ∧ count = remaining ∧ result = .ok { state with accounts })

section Recursion

variable {state : State} {account : Account} {delta : Int} {deltas : List Int} {remaining : Nat}
  {adjust : State → Account → Nat → Except String State} {result : Except String State}

theorem RecursionEnds.here (last : account.proxy = proxyToSelf)
    (gives : result = adjust state account remaining) :
    RecursionEnds adjust remaining state account result :=
  ⟨0, account, state.accounts, Nat.zero_le _, rfl, rfl, .inl ⟨last, gives⟩⟩

theorem RecursionEnds.limit (more : account.proxy ≠ proxyToSelf) (gives : result = .ok state) :
    RecursionEnds adjust 0 state account result :=
  ⟨0, account, state.accounts, le_rfl, rfl, rfl, .inr ⟨more, rfl, gives⟩⟩

/-- A step of the recursion changes proxied votes alone. -/
theorem RecursionEnds.next {proxy : Account} {accounts : List Account}
    (voices : accounts.map Account.voice = state.accounts.map Account.voice)
    (step : ProxiesTo state account.name proxy.name)
    (ends : RecursionEnds adjust remaining { state with accounts } proxy result) :
    RecursionEnds adjust (remaining + 1) state account result := by
  obtain ⟨count, last, others, short, same, chain, gives⟩ := ends
  rw [@follow_congr _ state voices] at chain
  refine ⟨count + 1, last, others, Nat.succ_le_succ short, same.trans voices, ?_, ?_⟩
  · rw [follow, show proxyOf state account.name = some proxy.name from step]
    exact chain
  · rw [Nat.add_sub_add_right, Nat.add_right_cancel_iff]
    exact gives

/-- An account that is read by its voice is an account. -/
theorem member_voice (voiced : account.voice ∈ state.accounts.map Account.voice) :
    ∃ row ∈ state.accounts, row.name = account.name ∧ row.proxy = account.proxy := by
  obtain ⟨row, member, same⟩ := List.mem_map.mp voiced
  simp only [Account.voice, Prod.mk.injEq] at same
  exact ⟨row, member, same.2⟩

theorem Linked.getProxy_voice (linked : Linked state)
    (voiced : account.voice ∈ state.accounts.map Account.voice) (more : account.proxy ≠ proxyToSelf) :
    ∃ next ∈ state.accounts, state.getAccount account.proxy = .ok next ∧
      ProxiesTo state account.name next.name := by
  obtain ⟨row, member, named, proxy⟩ := member_voice voiced
  obtain ⟨next, listed, got, _, step⟩ := linked.getProxy member (proxy ▸ more)
  exact ⟨next, listed, proxy ▸ got, named ▸ step⟩

theorem forwardVotes_ends (linked : Linked state)
    (voiced : account.voice ∈ state.accounts.map Account.voice) :
    RecursionEnds (changeOwn delta) remaining state account (forwardVotes delta remaining account state) := by
  induction remaining generalizing account state with
  | zero =>
    rw [forwardVotes]
    by_cases last : account.proxy = proxyToSelf
    · rw [if_pos last]
      exact .here last rfl
    · rw [if_neg last]
      exact .limit last rfl
  | succ remaining hypothesis =>
    rw [forwardVotes]
    by_cases last : account.proxy = proxyToSelf
    · rw [if_pos last]
      exact .here last rfl
    · obtain ⟨proxy, listed, got, step⟩ := linked.getProxy_voice voiced last
      have voices := proxied_voices delta state.accounts proxy.name (maxProxyRecursionDepth - (remaining + 1))
      rw [if_neg last, got]
      refine .next voices step (hypothesis (linked.congr voices.symm) ?_)
      rw [voices]
      exact List.mem_map_of_mem listed

theorem forwardVoteArray_ends (linked : Linked state) (short : remaining ≤ maxProxyRecursionDepth)
    (voiced : account.voice ∈ state.accounts.map Account.voice) :
    RecursionEnds (changeOwnArray deltas) remaining state account
      (forwardVoteArray deltas remaining account state) := by
  induction remaining generalizing account state with
  | zero =>
    rw [forwardVoteArray]
    by_cases last : account.proxy = proxyToSelf
    · rw [if_pos last]
      exact .here last rfl
    · rw [if_neg last]
      exact .limit last rfl
  | succ remaining hypothesis =>
    rw [forwardVoteArray]
    by_cases last : account.proxy = proxyToSelf
    · rw [if_pos last, Nat.sub_sub_self short]
      exact .here last rfl
    · obtain ⟨proxy, listed, got, step⟩ := linked.getProxy_voice voiced last
      have voices (change : List Int → List Int) : (modifyAccount state.accounts proxy.name fun account =>
          { account with proxiedVsfVotes := change account.proxiedVsfVotes }).map Account.voice =
            state.accounts.map Account.voice := map_modifyFirst fun _ => rfl
      rw [if_neg last, got]
      refine .next (voices _) step (hypothesis (linked.congr (voices _).symm) (by omega) ?_)
      rw [voices]
      exact List.mem_map_of_mem listed

end Recursion

/-! ## A change of proxy -/

section Assigning

variable {state next : State} {account proxy : Account}

theorem forwardVoteArray_voices {deltas : List Int} {remaining : Nat}
    (ran : forwardVoteArray deltas remaining account state = .ok next) :
    next.accounts.map Account.voice = state.accounts.map Account.voice := by
  induction remaining generalizing account state with
  | zero =>
    rw [forwardVoteArray] at ran
    by_cases last : account.proxy = proxyToSelf
    · rw [if_pos last] at ran
      obtain ⟨_, rfl⟩ := adjustWitnessVotes_written ran
      rfl
    · rw [if_neg last] at ran
      rw [pure_ok_iff.mp ran]
  | succ remaining hypothesis =>
    rw [forwardVoteArray] at ran
    by_cases last : account.proxy = proxyToSelf
    · rw [if_pos last] at ran
      obtain ⟨_, rfl⟩ := adjustWitnessVotes_written ran
      rfl
    · rw [if_neg last] at ran
      obtain ⟨_, _, rest⟩ := bind_ok_iff.mp ran
      exact (hypothesis rest).trans (map_modifyFirst fun _ => rfl)

theorem clearWitnessVotes_voices (state : State) (account : Account) :
    (clearWitnessVotes state account).accounts.map Account.voice = state.accounts.map Account.voice :=
  map_modifyFirst fun _ => rfl

theorem setProxy_names (state : State) (name target : Name) :
    (setProxy state name target).accounts.map Account.name = state.accounts.map Account.name :=
  map_modifyFirst fun _ => rfl

theorem setProxy_ids (state : State) (name target : Name) :
    (setProxy state name target).accounts.map Account.id = state.accounts.map Account.id :=
  map_modifyFirst fun _ => rfl

/-- The voices of a state with a new proxy are those before it, but for that proxy. -/
theorem setProxy_voices {other : State}
    (voices : other.accounts.map Account.voice = state.accounts.map Account.voice) (name target : Name) :
    (setProxy other name target).accounts.map Account.voice =
      (setProxy state name target).accounts.map Account.voice := by
  have column (state : State) : (setProxy state name target).accounts.map Account.voice =
      modifyFirst (fun voice => voice.2.1 == name) (fun voice => (voice.1, voice.2.1, target))
        (state.accounts.map Account.voice) := by
    rw [setProxy, modifyAccount]
    exact modifyFirst_map (by exact fun _ => rfl) (by exact fun _ => rfl) state.accounts
  rw [column, column, voices]

/-- A change of a proxy shows at its account alone. -/
theorem proxyOf_setProxy (linked : Linked state) (member : account ∈ state.accounts) (target name : Name) :
    proxyOf (setProxy state account.name target) name =
      if name = account.name then (if target = proxyToSelf then none else some target)
      else proxyOf state name := by
  by_cases own : name = account.name
  · rw [if_pos own, own, proxyOf, setProxy, modifyAccount,
      find?_modifyFirst (find?_of_nodup linked.names member) (beq_self_eq_true account.name)]
    rfl
  · rw [if_neg own, proxyOf, proxyOf, setProxy, modifyAccount, find?_modifyFirst_ne own]
    exact fun _ => rfl

/-- The new edge is the only one that was not there. -/
theorem proxiesTo_setProxy (linked : Linked state) (member : account ∈ state.accounts) (target : Name)
    {first second : Name} (edge : ProxiesTo (setProxy state account.name target) first second) :
    ProxiesTo state first second ∨ first = account.name ∧ second = target ∧ target ≠ proxyToSelf := by
  rw [ProxiesTo, proxyOf_setProxy linked member] at edge
  by_cases own : first = account.name
  · rw [if_pos own] at edge
    by_cases cleared : target = proxyToSelf
    · rw [if_pos cleared] at edge
      cases edge
    · rw [if_neg cleared] at edge
      exact .inr ⟨own, (Option.some.inj edge).symm, cleared⟩
  · rw [if_neg own] at edge
    exact .inl edge

/-- The account keeps its chain up to the new edge, and so does every other one. -/
theorem walk_setProxy (linked : Linked state) (member : account ∈ state.accounts) (target : Name)
    {name : Name} (walk : ReflTransGen (ProxiesTo state) name account.name) :
    ReflTransGen (ProxiesTo (setProxy state account.name target)) name account.name := by
  induction walk using ReflTransGen.head_induction_on with
  | refl => exact .refl
  | @head first _ edge _ hypothesis =>
    by_cases own : first = account.name
    · rw [own]
    · refine .head ?_ hypothesis
      rw [ProxiesTo, proxyOf_setProxy linked member, if_neg own]
      exact edge

/-- A new proxy closes a circle exactly if its chain comes to the account. -/
theorem acyclic_setProxy_iff (linked : Linked state) (member : account ∈ state.accounts)
    {target : Name} (given : target ≠ proxyToSelf) :
    Acyclic (setProxy state account.name target) ↔
      ¬ ReflTransGen (ProxiesTo state) target account.name := by
  constructor
  · intro acyclic walk
    have edge : ProxiesTo (setProxy state account.name target) account.name target := by
      rw [ProxiesTo, proxyOf_setProxy linked member, if_pos rfl, if_neg given]
    exact acyclic account.name (TransGen.head' edge (walk_setProxy linked member target walk))
  · intro apart
    refine Rooted.acyclic_insert (fun first second edge => ?_) linked.acyclic apart
    rcases proxiesTo_setProxy linked member target edge with old | ⟨begins, ends, _⟩
    · exact .inl old
    · exact .inr ⟨begins, ends⟩

theorem acyclic_clearProxy (linked : Linked state) (member : account ∈ state.accounts) :
    Acyclic (setProxy state account.name proxyToSelf) := by
  intro name circle
  have fewer : ∀ first second, ProxiesTo (setProxy state account.name proxyToSelf) first second →
      ProxiesTo state first second := by
    intro first second edge
    rcases proxiesTo_setProxy linked member proxyToSelf edge with old | ⟨_, _, given⟩
    · exact old
    · exact absurd rfl given
  exact linked.acyclic name (TransGen.mono fewer name name circle)

/-- A change of proxy that closes no circle. -/
theorem Linked.setProxy (linked : Linked state) {name target : Name}
    (there : target ≠ proxyToSelf → ∃ proxy ∈ state.accounts, proxy.name = target)
    (acyclic : Acyclic (setProxy state name target)) : Linked (setProxy state name target) where
  names := by
    rw [setProxy_names]
    exact linked.names
  ids := by
    rw [setProxy_ids]
    exact linked.ids
  known row listed proxied := by
    have kept (other : Name) (found : ∃ proxy ∈ state.accounts, proxy.name = other) :
        ∃ proxy ∈ (Ledger.setProxy state name target).accounts, proxy.name = other := by
      rw [← List.mem_map, setProxy_names, List.mem_map]
      exact found
    rcases mem_modifyFirst listed with old | ⟨changed, _, rfl⟩
    · exact kept row.proxy (linked.known row old proxied)
    · exact kept target (there proxied)
  acyclic := acyclic

/-- The check of a chain reads names, numbers and proxies. -/
theorem checkProxyChain_congr {first second : State}
    (voices : first.accounts.map Account.voice = second.accounts.map Account.voice) {fuel : Nat}
    {chain : List Nat} {one other : Account} (same : one.voice = other.voice) :
    checkProxyChain first fuel chain one = checkProxyChain second fuel chain other := by
  induction fuel generalizing chain one other with
  | zero => rfl
  | succ fuel hypothesis =>
    have columns (accounts : List Account) : (accounts.find? fun row => row.name == other.proxy).map
        Account.voice = (accounts.map Account.voice).find? fun voice => voice.2.1 == other.proxy := by
      rw [List.find?_map]
      rfl
    have found := (columns first.accounts).trans (voices ▸ (columns second.accounts).symm)
    simp only [Account.voice, Prod.mk.injEq] at same
    rw [checkProxyChain, checkProxyChain, same.2.2]
    by_cases last : other.proxy = proxyToSelf
    · rw [if_pos last, if_pos last]
    · rw [if_neg last, if_neg last, State.getAccount, State.getAccount]
      cases here : first.accounts.find? fun row => row.name == other.proxy with
      | none =>
        rw [here, Option.map_none, eq_comm, Option.map_eq_none_iff] at found
        rw [found]
        rfl
      | some row =>
        rw [here, Option.map_some, eq_comm, Option.map_eq_some_iff] at found
        obtain ⟨there, two, voice⟩ := found
        have ids : there.id = row.id := (Prod.mk.inj voice).1
        rw [two]
        simp only [expect, bind, Except.bind, ids, hypothesis voice.symm]

/-- The accounts that the check of a new proxy starts with. -/
theorem chain_start (linked : Linked state) (member : account ∈ state.accounts)
    (listed : proxy ∈ state.accounts) (apart : proxy ≠ account) :
    [proxy.id, account.id].dedup = [proxy.id, account.id] := by
  refine List.Nodup.dedup ?_
  simp only [List.nodup_cons, List.mem_singleton, List.not_mem_nil, not_false_eq_true, List.nodup_nil,
    and_true]
  exact fun same => apart (linked.eq_of_id listed member same)

/-- The check of a new proxy refuses the circles and the chains that are too long. -/
theorem newProxy_ok_iff (linked : Linked state) (member : account ∈ state.accounts)
    (listed : proxy ∈ state.accounts) (apart : proxy ≠ account) (given : proxy.name ≠ proxyToSelf) :
    checkProxyChain state maxProxyRecursionDepth [proxy.id, account.id].dedup proxy = .ok () ↔
      Acyclic (setProxy state account.name proxy.name) ∧
        follow state (maxProxyRecursionDepth - 1) proxy.name = none := by
  have passed : Passed state account proxy [proxy.id, account.id] := by
    constructor
    · simp
    · intro id within
      rcases List.mem_pair.mp within with rfl | rfl
      · exact .inr ⟨proxy, listed, rfl, .refl⟩
      · exact .inl rfl
  rw [chain_start linked member listed apart, acyclic_setProxy_iff linked member given]
  exact checkProxyChain_ok_iff linked member listed apart passed (show 2 ≤ 4 by decide) (show 4 < 2 + 4 by decide)

end Assigning

/-! ## Runs -/

section Runs

variable {state next : State} {account proxy : Account} {op : AccountWitnessProxyOperation}

theorem getAccount_member {name : Name} (got : state.getAccount name = .ok account) :
    account ∈ state.accounts ∧ account.name = name := by
  have found := expect_ok_iff.mp got
  exact ⟨List.mem_of_find?_eq_some found, by simpa using List.find?_some found⟩

/-- What an assignment leaves when its check has passed and before the votes are added again. -/
def reassigned (withdrawn : State) (account proxy : Account) : State :=
  setProxy (clearWitnessVotes withdrawn account) account.name proxy.name

theorem Linked.reassigned {withdrawn : State} (linked : Linked state) (member : account ∈ state.accounts)
    (listed : proxy ∈ state.accounts) (apart : proxy ≠ account) (given : proxy.name ≠ proxyToSelf)
    (voices : withdrawn.accounts.map Account.voice = state.accounts.map Account.voice)
    (passed : checkProxyChain withdrawn maxProxyRecursionDepth [proxy.id, account.id].dedup proxy = .ok ()) :
    Linked (reassigned withdrawn account proxy) := by
  rw [checkProxyChain_congr voices rfl, newProxy_ok_iff linked member listed apart given] at passed
  refine (linked.setProxy (fun _ => ⟨proxy, listed, rfl⟩) passed.1).congr ?_
  exact (setProxy_voices ((clearWitnessVotes_voices withdrawn account).trans voices) _ _).symm

/-- An assignment keeps the chains without circles. -/
theorem Linked.apply (linked : Linked state) (valid : op.validate = .ok ()) (ran : op.apply state = .ok next) :
    Linked next := by
  simp only [AccountWitnessProxyOperation.apply, bind_ok_iff, require_ok_iff, exists_const] at ran
  obtain ⟨account, got, _, _, ran⟩ := ran
  obtain ⟨member, named⟩ := getAccount_member got
  by_cases cleared : op.proxy = proxyToSelf
  · simp only [if_pos cleared, updateVotingProxy, bind_ok_iff, pure_ok_iff] at ran
    obtain ⟨withdrawn, took, rfl⟩ := ran
    refine (linked.setProxy (fun given => absurd rfl given) (acyclic_clearProxy linked member)).congr ?_
    exact (setProxy_voices (forwardVoteArray_voices took) _ _).symm
  · simp only [if_neg cleared, updateVotingProxy, bind_ok_iff] at ran
    obtain ⟨proxy, found, withdrawn, took, passed, checks, proxied, _, added⟩ := ran
    obtain ⟨listed, called⟩ := getAccount_member found
    have apart : proxy ≠ account := by
      rintro rfl
      exact require_ok_iff.mp valid (called.symm.trans named)
    have given : proxy.name ≠ proxyToSelf := called ▸ cleared
    have links := linked.reassigned member listed apart given (forwardVoteArray_voices took) checks
    exact links.congr (forwardVoteArray_voices added).symm

/-- New accounts have no proxy, and other operations change neither names nor proxies. -/
theorem Linked.append {fresh : List Account} (linked : Linked state)
    (voices : next.accounts.map Account.voice = (state.accounts ++ fresh).map Account.voice)
    (names : (next.accounts.map Account.name).Nodup) (ids : (next.accounts.map Account.id).Nodup)
    (free : ∀ account ∈ fresh, account.proxy = proxyToSelf) : Linked next where
  names := names
  ids := ids
  known := by
    rw [known_iff, voices, ← @known_iff { state with accounts := state.accounts ++ fresh }]
    intro account member proxied
    rcases List.mem_append.mp member with old | new
    · obtain ⟨proxy, listed, named⟩ := linked.known account old proxied
      exact ⟨proxy, List.mem_append_left fresh listed, named⟩
    · exact absurd (free account new) proxied
  acyclic name circle := by
    have fewer : ∀ first second, ProxiesTo next first second → ProxiesTo state first second := by
      intro first second edge
      rw [@proxiesTo_congr next { state with accounts := state.accounts ++ fresh } voices,
        ProxiesTo, proxyOf, List.find?_append] at edge
      rw [ProxiesTo, proxyOf]
      cases found : state.accounts.find? fun account => account.name == first with
      | some account =>
        rw [found] at edge
        exact edge
      | none =>
        rw [found, Option.none_or] at edge
        obtain ⟨account, there, proxied⟩ := Option.bind_eq_some_iff.mp edge
        rw [if_pos (free account (List.mem_of_find?_eq_some there))] at proxied
        cases proxied
    exact linked.acyclic name (TransGen.mono fewer name name circle)

/-- The states that assignments of proxies reach, among operations that leave the names, numbers and
    proxies of accounts and may add accounts. -/
inductive ProxyRun : State → Prop
  | start {state : State} (names : (state.accounts.map Account.name).Nodup)
      (ids : (state.accounts.map Account.id).Nodup)
      (free : ∀ account ∈ state.accounts, account.proxy = proxyToSelf) : ProxyRun state
  | assign {state next : State} {op : AccountWitnessProxyOperation} (before : ProxyRun state)
      (valid : op.validate = .ok ()) (ran : op.apply state = .ok next) : ProxyRun next
  | other {state next : State} {fresh : List Account} (before : ProxyRun state)
      (voices : next.accounts.map Account.voice = (state.accounts ++ fresh).map Account.voice)
      (names : (next.accounts.map Account.name).Nodup) (ids : (next.accounts.map Account.id).Nodup)
      (free : ∀ account ∈ fresh, account.proxy = proxyToSelf) : ProxyRun next

theorem ProxyRun.linked (run : ProxyRun state) : Linked state := by
  induction run with
  | start names ids free =>
    rename_i state
    have bare (name : Name) : proxyOf state name = none := by
      rw [proxyOf, Option.bind_eq_none_iff]
      exact fun account found => if_pos (free account (List.mem_of_find?_eq_some found))
    refine ⟨names, ids, fun account member proxied => absurd (free account member) proxied, ?_⟩
    intro name circle
    obtain ⟨_, edge, _⟩ := TransGen.head'_iff.mp circle
    cases (bare name).symm.trans edge
  | assign _ valid ran hypothesis => exact hypothesis.apply valid ran
  | other _ voices names ids free hypothesis => exact hypothesis.append voices names ids free

/-- The result of the check is that of its loop. -/
theorem walk_iff {withdrawn : State} {chain : List Nat} {result : Except String Unit}
    (short : chain.length = 2) : ChainWalk withdrawn chain proxy result ↔
      checkProxyChain withdrawn maxProxyRecursionDepth chain proxy = result := by
  have walk : ChainWalk withdrawn chain proxy (checkProxyChain withdrawn maxProxyRecursionDepth chain proxy) :=
    walk_check (by rw [short]; decide) (by rw [short]; decide)
  constructor
  · exact walk.unique
  · rintro rfl
    exact walk

end Runs

namespace Sample

/-- Three accounts that vote for themselves. -/
def voters : State :=
  { genesis.blank [] with
    accounts := [freshAccount 0 "alice", freshAccount 1 "bob", freshAccount 2 "carol"] }

end Sample

end DeipChain.Ledger
