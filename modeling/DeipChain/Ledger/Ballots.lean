import DeipChain.Ledger.WithdrawalRoutes

/-!
# The votes of a withdrawal

A change of voting weight goes along the proxies of an account to the witnesses that the last
of them votes for. It reads the names and proxies of the accounts, and the votes, and moves no
tokens. So the votes of a withdrawal can be cast without its payments, and succeed where they
succeed among them.
-/
namespace DeipChain.Ledger

open DeipChain.Result DeipChain.Table

/-! ## What forwarding votes reads and writes -/

/-- What a change of votes reads of an account. -/
def Account.voice (account : Account) : Nat × Name × Name :=
  (account.id, account.name, account.proxy)

/-- Two states in which votes are cast alike. -/
structure Alike (first second : State) : Prop where
  voices : first.accounts.map Account.voice = second.accounts.map Account.voice
  witnesses : first.witnesses = second.witnesses
  votes : first.witnessVotes = second.witnessVotes
  experts : first.props.totalExpertTokensAmount = second.props.totalExpertTokensAmount

namespace Alike

variable {first second third : State}

theorem refl (state : State) : Alike state state :=
  ⟨rfl, rfl, rfl, rfl⟩

theorem symm (alike : Alike first second) : Alike second first :=
  ⟨alike.voices.symm, alike.witnesses.symm, alike.votes.symm, alike.experts.symm⟩

theorem trans (one : Alike first second) (two : Alike second third) : Alike first third :=
  ⟨one.voices.trans two.voices, one.witnesses.trans two.witnesses, one.votes.trans two.votes,
    one.experts.trans two.experts⟩

/-- A change of accounts that keeps what votes depend on. -/
theorem modify (alike : Alike first second) (name : Name) {change : Account → Account}
    (same : ∀ row, (change row).voice = row.voice) :
    Alike { first with accounts := modifyAccount first.accounts name change } second :=
  ⟨(map_modifyFirst same).trans alike.voices, alike.witnesses, alike.votes, alike.experts⟩

/-- A key of the accounts finds accounts that votes do not tell apart. -/
theorem find (alike : Alike first second) (key : Nat × Name × Name → Bool) {account : Account}
    (found : first.accounts.find? (key ∘ Account.voice) = some account) :
    ∃ other, second.accounts.find? (key ∘ Account.voice) = some other ∧
      account.voice = other.voice := by
  have columns (accounts : List Account) : (accounts.map Account.voice).find? key =
      (accounts.find? (key ∘ Account.voice)).map Account.voice := List.find?_map
  have same := columns second.accounts
  rw [← alike.voices, columns, found, Option.map_some] at same
  obtain ⟨other, there, equal⟩ := Option.map_eq_some_iff.mp same.symm
  exact ⟨other, there, equal.symm⟩

theorem getAccount (alike : Alike first second) {name : Name} {account : Account}
    (got : first.getAccount name = .ok account) :
    ∃ other, second.getAccount name = .ok other ∧ account.voice = other.voice := by
  rw [State.getAccount, expect_ok_iff] at got
  obtain ⟨other, found, same⟩ := alike.find (fun voice => voice.2.1 == name) got
  exact ⟨other, expect_ok_iff.mpr found, same⟩

theorem getAccountById (alike : Alike first second) {id : Nat} {account : Account}
    (got : getAccountById first.accounts id = .ok account) :
    ∃ other, Ledger.getAccountById second.accounts id = .ok other ∧
      account.voice = other.voice := by
  rw [Ledger.getAccountById, expect_ok_iff] at got
  obtain ⟨other, found, same⟩ := alike.find (fun voice => voice.1 == id) got
  exact ⟨other, expect_ok_iff.mpr found, same⟩

end Alike

section Forwarding

variable {first second state next : State} {account other : Account} {delta : Int}
  {remaining : Nat}

theorem adjustWitnessVotes_alike (alike : Alike first second) (same : account.id = other.id)
    (ran : adjustWitnessVotes first account delta = .ok next) :
    ∃ after, adjustWitnessVotes second other delta = .ok after ∧ Alike next after := by
  obtain ⟨witnesses, walked, wrote⟩ := bind_ok_iff.mp ran
  obtain rfl := pure_ok_iff.mp wrote
  rw [alike.votes, alike.experts, alike.witnesses, same] at walked
  refine ⟨{ second with witnesses }, bind_ok_iff.mpr ⟨witnesses, walked, rfl⟩, ?_⟩
  exact ⟨alike.voices, rfl, alike.votes, alike.experts⟩

/-- Votes go the same way in states that are alike. -/
theorem forwardVotes_alike (alike : Alike first second) (same : account.voice = other.voice)
    (ran : forwardVotes delta remaining account first = .ok next) :
    ∃ after, forwardVotes delta remaining other second = .ok after ∧ Alike next after := by
  have fields : account.id = other.id ∧ account.name = other.name ∧ account.proxy = other.proxy := by
    simpa only [Account.voice, Prod.mk.injEq] using same
  obtain ⟨id, _, proxy⟩ := fields
  induction remaining generalizing account other first second with
  | zero =>
    rw [forwardVotes] at ran ⊢
    rw [← proxy]
    by_cases own : account.proxy = proxyToSelf
    · rw [if_pos own] at ran ⊢
      exact adjustWitnessVotes_alike alike id ran
    · rw [if_neg own] at ran ⊢
      exact ⟨second, rfl, pure_ok_iff.mp ran ▸ alike⟩
  | succ remaining hypothesis =>
    rw [forwardVotes] at ran ⊢
    rw [← proxy]
    by_cases own : account.proxy = proxyToSelf
    · rw [if_pos own] at ran ⊢
      exact adjustWitnessVotes_alike alike id ran
    · rw [if_neg own] at ran ⊢
      obtain ⟨target, got, rest⟩ := bind_ok_iff.mp ran
      obtain ⟨there, met, voices⟩ := alike.getAccount got
      have targets : target.id = there.id ∧ target.name = there.name ∧ target.proxy = there.proxy := by
        simpa only [Account.voice, Prod.mk.injEq] using voices
      let change : Account → Account := fun account =>
        { account with
          proxiedVsfVotes := addAt account.proxiedVsfVotes
            (maxProxyRecursionDepth - (remaining + 1)) delta }
      have silent (row : Account) : (change row).voice = row.voice := rfl
      have written : Alike
          { first with accounts := modifyAccount first.accounts target.name change }
          { second with accounts := modifyAccount second.accounts there.name change } :=
        ((alike.modify target.name silent).symm.modify there.name silent).symm
      obtain ⟨after, forwards, likewise⟩ :=
        hypothesis written voices rest targets.1 targets.2.1 targets.2.2
      exact ⟨after, bind_ok_iff.mpr ⟨there, met, forwards⟩, likewise⟩

/-- Everything of an account but the votes that are proxied to it. -/
def Account.unvoted (account : Account) :
    (Nat × Name × Nat × Int × Int × Time × Int × Int) × Nat × Name × Name :=
  (account.terms, account.voice)

theorem adjustWitnessVotes_written (ran : adjustWitnessVotes state account delta = .ok next) :
    ∃ witnesses, next = { state with witnesses } := by
  obtain ⟨witnesses, _, wrote⟩ := bind_ok_iff.mp ran
  exact ⟨witnesses, (pure_ok_iff.mp wrote).symm⟩

/-- A change of votes writes witnesses and proxied votes. -/
theorem forwardVotes_written (ran : forwardVotes delta remaining account state = .ok next) :
    ∃ accounts witnesses, next = { state with accounts, witnesses } ∧
      accounts.map Account.unvoted = state.accounts.map Account.unvoted := by
  induction remaining generalizing account state with
  | zero =>
    rw [forwardVotes] at ran
    by_cases own : account.proxy = proxyToSelf
    · rw [if_pos own] at ran
      obtain ⟨witnesses, rfl⟩ := adjustWitnessVotes_written ran
      exact ⟨_, _, rfl, rfl⟩
    · rw [if_neg own] at ran
      exact ⟨_, _, (pure_ok_iff.mp ran).symm, rfl⟩
  | succ remaining hypothesis =>
    rw [forwardVotes] at ran
    by_cases own : account.proxy = proxyToSelf
    · rw [if_pos own] at ran
      obtain ⟨witnesses, rfl⟩ := adjustWitnessVotes_written ran
      exact ⟨_, _, rfl, rfl⟩
    · rw [if_neg own] at ran
      obtain ⟨target, _, rest⟩ := bind_ok_iff.mp ran
      obtain ⟨accounts, witnesses, rfl, same⟩ := hypothesis rest
      exact ⟨accounts, witnesses, rfl, same.trans (map_modifyFirst fun _ => rfl)⟩

end Forwarding

/-! ## The votes of one visit -/

/-- What a route takes of a withdrawal. -/
def WithdrawRoute.share (withdrawal : Int) (route : WithdrawRoute) : Int :=
  withdrawal * route.percent / fullPercent

/-- A change of votes for the account of a number. -/
def changeVotes (state : State) (id : Nat) (delta : Int) : Except String State := do
  let account ← getAccountById state.accounts id
  adjustProxiedWitnessVotes state account delta

/-- An automatic route that takes something adds it to the votes. -/
def castRoute (withdrawal : Int) (state : State) (route : WithdrawRoute) : Except String State :=
  if route.autoCommonToken = true ∧ 0 < route.share withdrawal then
    changeVotes state route.toAccount (route.share withdrawal)
  else return state

/-- The votes of a visit, without its payments. -/
def castVisit (state : State) (account : Account) (withdrawal : Int) : Except String State := do
  let routed ← (routesFrom state.routes account.id).foldlM (castRoute withdrawal) state
  if 0 < withdrawal then changeVotes routed account.id (-withdrawal) else return routed

section Casting

variable {state cast next : State} {withdrawal : Int} {route : WithdrawRoute}

theorem depositShare_eq (sign : 0 ≤ withdrawal) (route : WithdrawRoute) :
    depositShare withdrawal route.percent = .ok (route.share withdrawal) := by
  rw [depositShare, require, if_pos (.inl sign)]
  rfl

theorem WithdrawRoute.share_nonneg (sign : 0 ≤ withdrawal) (route : WithdrawRoute) :
    0 ≤ route.share withdrawal :=
  depositShare_nonneg (depositShare_eq sign route)

theorem changeVotes_alike (alike : Alike state cast) {id : Nat} {delta : Int}
    (ran : changeVotes state id delta = .ok next) :
    ∃ after, changeVotes cast id delta = .ok after ∧ Alike next after := by
  obtain ⟨account, got, forwards⟩ := bind_ok_iff.mp ran
  obtain ⟨other, there, voices⟩ := alike.getAccountById got
  obtain ⟨after, follows, likewise⟩ := forwardVotes_alike alike voices forwards
  exact ⟨after, bind_ok_iff.mpr ⟨other, there, follows⟩, likewise⟩

theorem castRoute_alike (alike : Alike state cast) (ran : castRoute withdrawal state route = .ok next) :
    ∃ after, castRoute withdrawal cast route = .ok after ∧ Alike next after := by
  rw [castRoute] at ran ⊢
  by_cases casts : route.autoCommonToken = true ∧ 0 < route.share withdrawal
  · rw [if_pos casts] at ran ⊢
    exact changeVotes_alike alike ran
  · rw [if_neg casts] at ran ⊢
    exact ⟨cast, rfl, pure_ok_iff.mp ran ▸ alike⟩

/-- A deposit of common tokens casts the votes of its route. -/
theorem depositCommonTokens_iff (sign : 0 ≤ withdrawal) (asCommonTokens : Int) :
    (∀ after, depositCommonTokens withdrawal (state, asCommonTokens) route = .ok after →
      ∃ final, castRoute withdrawal state route = .ok final ∧ Alike after.1 final) ∧
    ∀ final, castRoute withdrawal state route = .ok final →
      ∃ after, depositCommonTokens withdrawal (state, asCommonTokens) route = .ok after ∧
        Alike after.1 final := by
  rw [depositCommonTokens, castRoute, depositShare_eq sign]
  by_cases auto : route.autoCommonToken = true
  · by_cases positive : 0 < route.share withdrawal
    · have funded (target : Account) : Alike state { state with
          accounts := modifyAccount state.accounts target.name fun account =>
            { account with
              commonTokensBalance := account.commonTokensBalance + route.share withdrawal } } :=
        ((Alike.refl state).modify target.name (by exact fun _ => rfl)).symm
      simp only [auto, positive, and_self, if_true, bind_ok_iff,
        Except.ok.injEq, exists_eq_left', pure_ok_iff, changeVotes]
      constructor
      · rintro _ ⟨target, got, voted, forwards, rfl⟩
        obtain ⟨final, casts, likewise⟩ := forwardVotes_alike (funded target).symm rfl forwards
        exact ⟨final, ⟨target, got, casts⟩, likewise⟩
      · rintro final ⟨target, got, casts⟩
        obtain ⟨voted, forwards, likewise⟩ := forwardVotes_alike (funded target) rfl casts
        exact ⟨_, ⟨target, got, voted, forwards, rfl⟩, likewise.symm⟩
    · simp only [auto, positive, and_false, if_true, if_false, bind_ok_iff, Except.ok.injEq,
        exists_eq_left', pure_ok_iff, forall_eq']
      exact ⟨.refl state, .refl state⟩
  · simp only [auto, false_and, if_false, pure_ok_iff, Bool.false_eq_true, exists_eq_left', forall_eq']
    exact ⟨.refl state, .refl state⟩

end Casting

/-! ## The ballots of a visit -/

/-- A change of the votes of one witness. -/
structure Ballot where
  witness : Nat
  delta : Int

/-- What a ballot adds to the votes of a witness. -/
def Ballot.countsFor (witness : Nat) (ballot : Ballot) : Int :=
  if ballot.witness = witness then ballot.delta else 0

/-- The number of the account that votes for an account: of the last of its proxies, unless there
    are too many of them. -/
def voterOf (accounts : List Account) : Nat → Account → Except String (Option Nat)
  | remaining, account =>
    if account.proxy = proxyToSelf then return some account.id
    else match remaining with
      | 0 => return none
      | remaining + 1 => do
        let proxy ← expect (accounts.find? fun row => row.name == account.proxy) unknownKey
        voterOf accounts remaining proxy

/-- The ballots for a change of voting weight. -/
def ballotsOf (votes : List WitnessVote) (delta : Int) (voter : Option Nat) : List Ballot :=
  match voter with
  | none => []
  | some voter => (votedWitnesses votes voter).map fun witness => ⟨witness, delta⟩

def changeBallots (state : State) (id : Nat) (delta : Int) : Except String (List Ballot) := do
  let account ← getAccountById state.accounts id
  let voter ← voterOf state.accounts maxProxyRecursionDepth account
  return ballotsOf state.witnessVotes delta voter

def routeBallots (state : State) (withdrawal : Int) (route : WithdrawRoute) :
    Except String (List Ballot) :=
  if route.autoCommonToken = true ∧ 0 < route.share withdrawal then
    changeBallots state route.toAccount (route.share withdrawal)
  else return []

/-- The ballots for what an account withdraws. -/
def ownBallots (state : State) (account : Account) (withdrawal : Int) :
    Except String (List Ballot) :=
  if 0 < withdrawal then changeBallots state account.id (-withdrawal) else return []

/-- The ballots of a visit, in their order. -/
def visitBallots (state : State) (account : Account) (withdrawal : Int) :
    Except String (List Ballot) := do
  let routed ← (routesFrom state.routes account.id).mapM (routeBallots state withdrawal)
  let own ← ownBallots state account withdrawal
  return routed.flatten ++ own

/-- A ballot that follows others is for a witness whose votes stay within its bounds. -/
def Admits (bound : Int) (witnesses : List Witness) (earlier : List Ballot) (ballot : Ballot) : Prop :=
  ∃ witness, witnesses.find? (fun witness => witness.id == ballot.witness) = some witness ∧
    witness.votes + total (Ballot.countsFor ballot.witness) earlier + ballot.delta ≤ bound ∧
    witness.votes + total (Ballot.countsFor ballot.witness) earlier + ballot.delta ≠ -1

def castBallot (bound : Int) (witnesses : List Witness) (ballot : Ballot) :
    Except String (List Witness) :=
  adjustWitnessVote bound ballot.delta witnesses ballot.witness

section Counting

variable {bound : Int} {witnesses : List Witness} {ballot : Ballot}

theorem castBallot_ok_iff {after : List Witness} :
    castBallot bound witnesses ballot = .ok after ↔ Admits bound witnesses [] ballot ∧
      after = modifyFirst (fun witness => witness.id == ballot.witness)
        (fun witness => { witness with votes := witness.votes + ballot.delta }) witnesses := by
  simp only [castBallot, adjustWitnessVote, Admits, bind_ok_iff, expect_ok_iff, require_ok_iff,
    pure_ok_iff, total_nil, add_zero]
  constructor
  · rintro ⟨witness, found, _, below, _, nonzero, rfl⟩
    exact ⟨⟨witness, found, below, by omega⟩, rfl⟩
  · rintro ⟨⟨witness, found, below, nonzero⟩, rfl⟩
    exact ⟨witness, found, (), below, (), by omega, rfl⟩

/-- What a ballot leaves for the ballots behind it. -/
theorem admits_cons (earlier : List Ballot) (other : Ballot) :
    Admits bound (modifyFirst (fun witness => witness.id == ballot.witness)
        (fun witness => { witness with votes := witness.votes + ballot.delta }) witnesses)
      earlier other ↔ Admits bound witnesses (ballot :: earlier) other := by
  rw [Admits, Admits, total_cons, Ballot.countsFor]
  by_cases same : ballot.witness = other.witness
  · rw [if_pos same, same]
    cases found : witnesses.find? fun witness => witness.id == other.witness with
    | none =>
      have missing : (modifyFirst (fun witness : Witness => witness.id == other.witness)
          (fun witness => { witness with votes := witness.votes + ballot.delta }) witnesses).find?
          (fun witness => witness.id == other.witness) = none := by
        have columns : ((modifyFirst (fun witness : Witness => witness.id == other.witness)
            (fun witness => { witness with votes := witness.votes + ballot.delta }) witnesses).find?
            fun witness => witness.id == other.witness).map Witness.id =
            (witnesses.find? fun witness => witness.id == other.witness).map Witness.id :=
          map_find?_modifyFirst (by exact fun _ => rfl) (by exact fun _ => rfl) witnesses
        rw [found] at columns
        exact Option.map_eq_none_iff.mp columns
      rw [missing]
      simp
    | some witness =>
      have own : (witness.id == other.witness) = true := by simpa using List.find?_some found
      rw [find?_modifyFirst found (by exact own)]
      simp only [Option.some.injEq, exists_eq_left', add_assoc]
  · rw [if_neg same, zero_add, find?_modifyFirst_ne (Ne.symm same)]
    exact fun _ => rfl

/-- Ballots can be cast in a row if the votes stay within their bounds at each of them. -/
theorem castBallots_ok_iff {ballots : List Ballot} :
    (∃ after, ballots.foldlM (castBallot bound) witnesses = .ok after) ↔
      ∀ earlier ballot later, ballots = earlier ++ ballot :: later →
        Admits bound witnesses earlier ballot := by
  induction ballots generalizing witnesses with
  | nil =>
    refine ⟨fun _ earlier ballot later split => ?_, fun _ => ⟨_, rfl⟩⟩
    simp at split
  | cons first rest hypothesis =>
    constructor
    · rintro ⟨after, ran⟩ earlier ballot later split
      rw [List.foldlM_cons] at ran
      obtain ⟨middle, cast, others⟩ := bind_ok_iff.mp ran
      obtain ⟨admitted, rfl⟩ := castBallot_ok_iff.mp cast
      cases earlier with
      | nil =>
        obtain ⟨rfl, _⟩ := List.cons.inj split
        exact admitted
      | cons head earlier =>
        obtain ⟨rfl, behind⟩ := List.cons.inj split
        exact (admits_cons earlier ballot).mp (hypothesis.mp ⟨after, others⟩ earlier ballot later behind)
    · intro all
      have cast := castBallot_ok_iff.mpr ⟨all [] first rest rfl, rfl⟩
      obtain ⟨after, others⟩ := hypothesis.mpr fun earlier ballot later split =>
        (admits_cons earlier ballot).mpr (all (first :: earlier) ballot later (by rw [split]; rfl))
      refine ⟨after, ?_⟩
      rw [List.foldlM_cons, cast]
      exact others

end Counting

/-! ## Votes are cast by ballots -/

/-- A state after some ballots, for votes that are alike otherwise. -/
def Casts (ballots : List Ballot) (state next : State) : Prop :=
  ∃ witnesses,
    ballots.foldlM (castBallot state.props.totalExpertTokensAmount) state.witnesses = .ok witnesses ∧
      Alike next { state with witnesses }

section Casts

variable {state middle next : State} {ballots others : List Ballot}
  {account other : Account} {delta withdrawal : Int} {remaining : Nat} {voter : Option Nat}

theorem Casts.nil (alike : Alike next state) : Casts [] state next :=
  ⟨state.witnesses, rfl, alike⟩

theorem Casts.trans (one : Casts ballots state middle) (two : Casts others middle next) :
    Casts (ballots ++ others) state next := by
  obtain ⟨witnesses, begun, alike⟩ := one
  obtain ⟨after, ran, ends⟩ := two
  rw [alike.experts, alike.witnesses] at ran
  refine ⟨after, ?_, ends.voices.trans alike.voices, ends.witnesses, ends.votes.trans alike.votes,
    ends.experts.trans alike.experts⟩
  rw [List.foldlM_append, begun]
  exact ran

theorem adjustWitnessVotes_ok_iff :
    adjustWitnessVotes state account delta = .ok next ↔ ∃ witnesses,
      (ballotsOf state.witnessVotes delta (some account.id)).foldlM
        (castBallot state.props.totalExpertTokensAmount) state.witnesses = .ok witnesses ∧
      next = { state with witnesses } := by
  rw [adjustWitnessVotes, ballotsOf, List.foldlM_map]
  simp only [bind_ok_iff, pure_ok_iff, castBallot]
  exact exists_congr fun _ => and_congr_right fun _ => eq_comm

theorem proxied_voices (delta : Int) (accounts : List Account) (name : Name) (slot : Nat) :
    (modifyAccount accounts name fun account =>
      { account with proxiedVsfVotes := addAt account.proxiedVsfVotes slot delta }).map
        Account.voice = accounts.map Account.voice :=
  map_modifyFirst fun _ => rfl

theorem voterOf_congr {first second : List Account} (voices : first.map Account.voice = second.map Account.voice)
    (same : account.voice = other.voice) :
    voterOf first remaining account = voterOf second remaining other := by
  induction remaining generalizing account other with
  | zero =>
    simp only [Account.voice, Prod.mk.injEq] at same
    rw [voterOf, voterOf, same.1, same.2.2]
  | succ remaining hypothesis =>
    have columns (accounts : List Account) : (accounts.find? fun row => row.name == other.proxy).map
        Account.voice = (accounts.map Account.voice).find? fun voice => voice.2.1 == other.proxy := by
      rw [List.find?_map]
      rfl
    have found := (columns first).trans (voices ▸ (columns second).symm)
    simp only [Account.voice, Prod.mk.injEq] at same
    rw [voterOf, voterOf, same.1, same.2.2]
    by_cases own : other.proxy = proxyToSelf
    · rw [if_pos own, if_pos own]
    · rw [if_neg own, if_neg own]
      cases one : first.find? fun row => row.name == other.proxy with
      | none =>
        rw [one, Option.map_none, eq_comm, Option.map_eq_none_iff] at found
        rw [found]
        rfl
      | some row =>
        rw [one, Option.map_some, eq_comm, Option.map_eq_some_iff] at found
        obtain ⟨there, two, voice⟩ := found
        rw [two]
        exact hypothesis voice.symm

/-- A change of votes casts the ballots of the last proxy. -/
theorem forwardVotes_casts (ran : forwardVotes delta remaining account state = .ok next) :
    ∃ voter, voterOf state.accounts remaining account = .ok voter ∧
      Casts (ballotsOf state.witnessVotes delta voter) state next := by
  induction remaining generalizing account state with
  | zero =>
    rw [forwardVotes] at ran
    rw [voterOf]
    by_cases own : account.proxy = proxyToSelf
    · rw [if_pos own] at ran ⊢
      obtain ⟨witnesses, cast, rfl⟩ := adjustWitnessVotes_ok_iff.mp ran
      exact ⟨_, rfl, witnesses, cast, .refl _⟩
    · rw [if_neg own] at ran ⊢
      exact ⟨none, rfl, .nil (pure_ok_iff.mp ran ▸ .refl _)⟩
  | succ remaining hypothesis =>
    rw [forwardVotes] at ran
    rw [voterOf]
    by_cases own : account.proxy = proxyToSelf
    · rw [if_pos own] at ran ⊢
      obtain ⟨witnesses, cast, rfl⟩ := adjustWitnessVotes_ok_iff.mp ran
      exact ⟨_, rfl, witnesses, cast, .refl _⟩
    · rw [if_neg own] at ran ⊢
      obtain ⟨proxy, got, rest⟩ := bind_ok_iff.mp ran
      obtain ⟨voter, reached, witnesses, cast, alike⟩ := hypothesis rest
      have voices := proxied_voices delta state.accounts proxy.name
        (maxProxyRecursionDepth - (remaining + 1))
      rw [voterOf_congr voices rfl] at reached
      refine ⟨voter, bind_ok_iff.mpr ⟨proxy, got, reached⟩, witnesses, cast, ?_⟩
      exact ⟨alike.voices.trans voices, alike.witnesses, alike.votes, alike.experts⟩

theorem forwardVotes_of_ballots (reached : voterOf state.accounts remaining account = .ok voter)
    (cast : ∃ witnesses, (ballotsOf state.witnessVotes delta voter).foldlM
      (castBallot state.props.totalExpertTokensAmount) state.witnesses = .ok witnesses) :
    ∃ next, forwardVotes delta remaining account state = .ok next := by
  obtain ⟨witnesses, cast⟩ := cast
  induction remaining generalizing account state with
  | zero =>
    rw [voterOf] at reached
    rw [forwardVotes]
    by_cases own : account.proxy = proxyToSelf
    · rw [if_pos own, pure_ok_iff] at reached
      rw [if_pos own]
      exact ⟨_, adjustWitnessVotes_ok_iff.mpr ⟨witnesses, reached ▸ cast, rfl⟩⟩
    · rw [if_neg own]
      exact ⟨state, rfl⟩
  | succ remaining hypothesis =>
    rw [voterOf] at reached
    rw [forwardVotes]
    by_cases own : account.proxy = proxyToSelf
    · rw [if_pos own, pure_ok_iff] at reached
      rw [if_pos own]
      exact ⟨_, adjustWitnessVotes_ok_iff.mpr ⟨witnesses, reached ▸ cast, rfl⟩⟩
    · rw [if_neg own] at reached ⊢
      obtain ⟨proxy, got, rest⟩ := bind_ok_iff.mp reached
      have voices := proxied_voices delta state.accounts proxy.name
        (maxProxyRecursionDepth - (remaining + 1))
      rw [← voterOf_congr voices rfl] at rest
      exact exists_bind got (hypothesis rest cast)

theorem changeVotes_casts {id : Nat} (ran : changeVotes state id delta = .ok next) :
    ∃ ballots, changeBallots state id delta = .ok ballots ∧ Casts ballots state next := by
  obtain ⟨account, got, forwards⟩ := bind_ok_iff.mp ran
  obtain ⟨voter, reached, casts⟩ := forwardVotes_casts forwards
  exact ⟨_, bind_ok_iff.mpr ⟨account, got, bind_ok_iff.mpr ⟨voter, reached, rfl⟩⟩, casts⟩

theorem changeVotes_of_ballots {id : Nat} (known : changeBallots state id delta = .ok ballots)
    (cast : ∃ witnesses, ballots.foldlM (castBallot state.props.totalExpertTokensAmount)
      state.witnesses = .ok witnesses) : ∃ next, changeVotes state id delta = .ok next := by
  obtain ⟨account, got, rest⟩ := bind_ok_iff.mp known
  obtain ⟨voter, reached, wrote⟩ := bind_ok_iff.mp rest
  obtain rfl := pure_ok_iff.mp wrote
  exact exists_bind got (forwardVotes_of_ballots reached cast)

/-- Votes that are cast leave the ballots to come. -/
theorem changeBallots_congr {cast : State} (voices : cast.accounts.map Account.voice =
    state.accounts.map Account.voice) (votes : cast.witnessVotes = state.witnessVotes) (id : Nat)
    (delta : Int) : changeBallots cast id delta = changeBallots state id delta := by
  have columns (accounts : List Account) : (accounts.find? fun row => row.id == id).map
      Account.voice = (accounts.map Account.voice).find? fun voice => voice.1 == id := by
    rw [List.find?_map]
    rfl
  have found := (columns cast.accounts).trans (voices ▸ (columns state.accounts).symm)
  rw [changeBallots, changeBallots, getAccountById, getAccountById, votes]
  cases one : cast.accounts.find? fun row => row.id == id with
  | none =>
    rw [one, Option.map_none, eq_comm, Option.map_eq_none_iff] at found
    rw [found]
    rfl
  | some row =>
    rw [one, Option.map_some, eq_comm, Option.map_eq_some_iff] at found
    obtain ⟨there, two, voice⟩ := found
    rw [two]
    change (voterOf cast.accounts _ row >>= _) = (voterOf state.accounts _ there >>= _)
    rw [voterOf_congr voices voice.symm]

theorem Casts.ballots_congr (casts : Casts ballots state middle) (id : Nat) (delta : Int) :
    changeBallots middle id delta = changeBallots state id delta := by
  obtain ⟨_, _, alike⟩ := casts
  exact changeBallots_congr alike.voices alike.votes id delta

theorem castRoute_casts {route : WithdrawRoute} (ran : castRoute withdrawal state route = .ok next) :
    ∃ ballots, routeBallots state withdrawal route = .ok ballots ∧ Casts ballots state next := by
  rw [castRoute] at ran
  rw [routeBallots]
  by_cases casts : route.autoCommonToken = true ∧ 0 < route.share withdrawal
  · rw [if_pos casts] at ran ⊢
    exact changeVotes_casts ran
  · rw [if_neg casts] at ran ⊢
    exact ⟨[], rfl, .nil (pure_ok_iff.mp ran ▸ .refl _)⟩

theorem castRoute_of_ballots {route : WithdrawRoute}
    (known : routeBallots state withdrawal route = .ok ballots)
    (cast : ∃ witnesses, ballots.foldlM (castBallot state.props.totalExpertTokensAmount)
      state.witnesses = .ok witnesses) : ∃ next, castRoute withdrawal state route = .ok next := by
  rw [routeBallots] at known
  rw [castRoute]
  by_cases casts : route.autoCommonToken = true ∧ 0 < route.share withdrawal
  · rw [if_pos casts] at known ⊢
    exact changeVotes_of_ballots known cast
  · rw [if_neg casts]
    exact ⟨state, rfl⟩

theorem Casts.routeBallots_congr (casts : Casts ballots state middle) (route : WithdrawRoute) :
    routeBallots middle withdrawal route = routeBallots state withdrawal route := by
  rw [routeBallots, routeBallots, casts.ballots_congr]

theorem castRoutes_casts {routes : List WithdrawRoute}
    (ran : routes.foldlM (castRoute withdrawal) state = .ok next) :
    ∃ ballots, routes.mapM (routeBallots state withdrawal) = .ok ballots ∧
      Casts ballots.flatten state next := by
  induction routes generalizing state with
  | nil => exact ⟨[], rfl, .nil (pure_ok_iff.mp ran ▸ .refl _)⟩
  | cons route rest hypothesis =>
    rw [List.foldlM_cons] at ran
    obtain ⟨middle, first, later⟩ := bind_ok_iff.mp ran
    obtain ⟨ballots, known, casts⟩ := castRoute_casts first
    obtain ⟨others, follow, more⟩ := hypothesis later
    rw [funext casts.routeBallots_congr] at follow
    refine ⟨ballots :: others, ?_, casts.trans more⟩
    simp only [List.mapM_cons, bind_ok_iff, pure_ok_iff]
    exact ⟨ballots, known, others, follow, rfl⟩

/-- The first ballots of a row that can be cast leave the others to be cast. -/
theorem Casts.rest {others : List Ballot} (casts : Casts ballots state middle)
    (cast : ∃ witnesses, (ballots ++ others).foldlM (castBallot state.props.totalExpertTokensAmount)
      state.witnesses = .ok witnesses) :
    ∃ witnesses, others.foldlM (castBallot middle.props.totalExpertTokensAmount) middle.witnesses =
      .ok witnesses := by
  obtain ⟨between, begun, alike⟩ := casts
  obtain ⟨witnesses, ran⟩ := cast
  rw [List.foldlM_append, begun] at ran
  rw [alike.experts, alike.witnesses]
  exact ⟨witnesses, ran⟩

theorem castRoutes_of_ballots {routes : List WithdrawRoute} {ballots : List (List Ballot)}
    (known : routes.mapM (routeBallots state withdrawal) = .ok ballots)
    (cast : ∃ witnesses, ballots.flatten.foldlM (castBallot state.props.totalExpertTokensAmount)
      state.witnesses = .ok witnesses) :
    ∃ next, routes.foldlM (castRoute withdrawal) state = .ok next := by
  induction routes generalizing state ballots with
  | nil => exact ⟨state, rfl⟩
  | cons route rest hypothesis =>
    simp only [List.mapM_cons, bind_ok_iff, pure_ok_iff] at known
    obtain ⟨first, begins, others, follow, rfl⟩ := known
    obtain ⟨between, begun⟩ : ∃ witnesses, first.foldlM
        (castBallot state.props.totalExpertTokensAmount) state.witnesses = .ok witnesses := by
      obtain ⟨_, ran⟩ := cast
      rw [List.flatten_cons, List.foldlM_append] at ran
      obtain ⟨between, begun, _⟩ := bind_ok_iff.mp ran
      exact ⟨between, begun⟩
    obtain ⟨middle, casts⟩ := castRoute_of_ballots begins ⟨between, begun⟩
    obtain ⟨same, again, moved⟩ := castRoute_casts casts
    obtain rfl := Except.ok.inj (again.symm.trans begins)
    rw [← funext moved.routeBallots_congr] at follow
    obtain ⟨next, later⟩ := hypothesis follow (moved.rest cast)
    refine ⟨next, ?_⟩
    rw [List.foldlM_cons, casts]
    exact later

/-- The votes of a visit can be cast exactly if each ballot leaves the votes of its witness
    within their bounds. -/
theorem castVisit_ok_iff : (∃ next, castVisit state account withdrawal = .ok next) ↔
    ∃ ballots, visitBallots state account withdrawal = .ok ballots ∧
      ∀ earlier ballot later, ballots = earlier ++ ballot :: later →
        Admits state.props.totalExpertTokensAmount state.witnesses earlier ballot := by
  simp only [← castBallots_ok_iff, castVisit, visitBallots, ownBallots]
  constructor
  · rintro ⟨next, ran⟩
    obtain ⟨routed, first, own⟩ := bind_ok_iff.mp ran
    obtain ⟨ballots, known, casts⟩ := castRoutes_casts first
    by_cases positive : 0 < withdrawal
    · simp only [if_pos positive] at own ⊢
      obtain ⟨others, follow, more⟩ := changeVotes_casts own
      rw [casts.ballots_congr] at follow
      obtain ⟨witnesses, cast, _⟩ := casts.trans more
      exact ⟨_, bind_ok_iff.mpr ⟨ballots, known, bind_ok_iff.mpr ⟨others, follow, rfl⟩⟩,
        witnesses, cast⟩
    · simp only [if_neg positive]
      obtain ⟨witnesses, cast, _⟩ := casts
      refine ⟨_, bind_ok_iff.mpr ⟨ballots, known, rfl⟩, witnesses, ?_⟩
      rw [List.append_nil]
      exact cast
  · rintro ⟨all, known, cast⟩
    obtain ⟨ballots, routes, rest⟩ := bind_ok_iff.mp known
    obtain ⟨others, own, wrote⟩ := bind_ok_iff.mp rest
    obtain rfl := pure_ok_iff.mp wrote
    obtain ⟨between, begun⟩ : ∃ witnesses, ballots.flatten.foldlM
        (castBallot state.props.totalExpertTokensAmount) state.witnesses = .ok witnesses := by
      obtain ⟨_, ran⟩ := cast
      rw [List.foldlM_append] at ran
      obtain ⟨between, begun, _⟩ := bind_ok_iff.mp ran
      exact ⟨between, begun⟩
    obtain ⟨routed, first⟩ := castRoutes_of_ballots routes ⟨between, begun⟩
    obtain ⟨same, again, casts⟩ := castRoutes_casts first
    obtain rfl := Except.ok.inj (again.symm.trans routes)
    refine exists_bind first ?_
    by_cases positive : 0 < withdrawal
    · rw [if_pos positive] at own ⊢
      rw [← casts.ballots_congr] at own
      exact changeVotes_of_ballots own (casts.rest cast)
    · rw [if_neg positive]
      exact ⟨routed, rfl⟩

end Casts

end DeipChain.Ledger
