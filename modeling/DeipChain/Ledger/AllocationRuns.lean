import DeipChain.Ledger.Allocations

/-!
# What is granted at the end of a block

Whoever has a token in a discipline has one in each discipline above it, so a grant gives all that
is missing. The walk over the proposals ends just if no claimer has a token when its turn comes, and
it has then granted all of them.
-/
namespace DeipChain.Ledger

open DeipChain.Result DeipChain.Table

/-! ## Expert tokens in every reachable state -/

/-- Genesis makes disciplines whose parents come before them. -/
theorem initDisciplines_taught {start next : State} {disciplines : List GenesisDiscipline}
    (empty : start.disciplines = [])
    (inited : disciplines.foldlM GenesisState.initDiscipline start = .ok next) :
    Taught next.disciplines := by
  refine foldlM_invariant (fun _ state => Taught state.disciplines) ?_ ?_ inited
  · intro discipline rest state next taught inited
    rw [GenesisState.initDiscipline, bind_ok_iff] at inited
    obtain ⟨parentId, parent, inited⟩ := inited
    obtain ⟨_, _, wrote⟩ := bind_ok_iff.mp inited
    obtain rfl := pure_ok_iff.mp wrote
    have before : parentId = 0 ∨ parentId < state.disciplines.length := by
      rw [GenesisState.parentOf] at parent
      by_cases named : discipline.parentExternalId ≠ ""
      · rw [if_pos named] at parent
        obtain ⟨row, got, same⟩ := bind_ok_iff.mp parent
        obtain rfl := pure_ok_iff.mp same
        exact .inr (taught.lt_length (List.mem_of_find?_eq_some (expect_ok_iff.mp got)))
      · rw [if_neg named, pure_ok_iff] at parent
        exact .inl parent.symm
    refine ⟨?_, List.forall_mem_append.mpr ⟨taught.parents, List.forall_mem_singleton.mpr before⟩⟩
    rw [List.map_append, taught.ids, List.length_append, List.length_singleton, List.range_succ]
    rfl
  · rw [empty]
    exact ⟨rfl, by simp⟩

/-- Whoever has a token in a discipline has one in its parent. -/
structure Closed (state : State) : Prop where
  taught : Taught state.disciplines
  closed : ∀ name, ∀ row ∈ state.disciplines, row.parentId ≠ 0 →
    state.holdsExpertise name row.id = true → state.holdsExpertise name row.parentId = true

section Tokens

variable {state next : State} {name : Name} {discipline : Nat} {amount : Int}

theorem Gives.holds (gives : Gives state next name discipline amount) (other : Name) (above : Nat) :
    next.holdsExpertise other above = true ↔ state.holdsExpertise other above = true ∨
      other = name ∧ Covers state.disciplines discipline above := by
  obtain ⟨fresh, tokens, _, _, keys⟩ := gives.tokens
  rw [holdsExpertise_iff, tokens, List.map_append, List.mem_append, ← holdsExpertise_iff, keys]
  by_cases held : state.holdsExpertise other above = true
  · simp [held]
  · rw [Bool.not_eq_true] at held
    simp [held]

theorem Gives.closed (gives : Gives state next name discipline amount) (closed : Closed state) :
    Closed next where
  taught := gives.disciplines ▸ closed.taught
  closed other row listed parent held := by
    rw [gives.disciplines] at listed
    rw [gives.holds] at held ⊢
    rcases held with before | ⟨rfl, covers⟩
    · exact .inl (closed.closed other row listed parent before)
    · exact .inr ⟨rfl, covers.tail ⟨row, listed, rfl, rfl, parent⟩⟩

theorem createExpertTokens_needs {levels : Nat}
    (ran : createExpertTokens name amount levels state discipline = .ok next) :
    state.accountExists name = true ∧ discipline ≠ 0 ∧
      (∃ row ∈ state.disciplines, row.id = discipline) ∧
      state.holdsExpertise name discipline = false := by
  cases levels with
  | zero => cases ran
  | succ levels =>
    simp only [createExpertTokens, bind_ok_iff, require_ok_iff] at ran
    obtain ⟨account, known, _, proper, row, got, _, added, _⟩ := ran
    have found := expect_ok_iff.mp known
    have listed := expect_ok_iff.mp got
    have named : account.name = name := by simpa using List.find?_some found
    refine ⟨?_, proper, ⟨row, List.mem_of_find?_eq_some listed, by simpa using List.find?_some listed⟩,
      (addExpertToken_ok_iff.mp added).1⟩
    exact List.any_eq_true.mpr ⟨account, List.mem_of_find?_eq_some found, beq_iff_eq.mpr named⟩

/-- A token is created for a known account in a discipline that exists just if there is none. -/
theorem createExpertToken_runs (closed : Closed state) (known : state.accountExists name = true)
    (proper : discipline ≠ 0) (exists_ : ∃ row ∈ state.disciplines, row.id = discipline)
    (unheld : state.holdsExpertise name discipline = false) :
    ∃ next, createExpertToken state name discipline amount = .ok next ∧
      Gives state next name discipline amount := by
  obtain ⟨row, listed, rfl⟩ := exists_
  have below := closed.taught.lt_length listed
  exact createExpertTokens_gives closed.taught known proper below below
    (fun row listed _ => closed.closed name row listed) unheld

theorem createExpertToken_gives (closed : Closed state)
    (ran : createExpertToken state name discipline amount = .ok next) :
    Gives state next name discipline amount := by
  obtain ⟨known, proper, exists_, unheld⟩ := createExpertTokens_needs ran
  obtain ⟨next', ran', gives⟩ := createExpertToken_runs closed known proper exists_ unheld
  rw [ran] at ran'
  obtain rfl := Except.ok.inj ran'
  exact gives

/-- What a change of expert tokens keeps. -/
structure Rewarded (state next : State) : Prop where
  closed : Closed next
  disciplines : next.disciplines = state.disciplines
  registry : next.registry = state.registry
  accounts : ∀ name, state.accountExists name = true → next.accountExists name = true

theorem Gives.rewarded (gives : Gives state next name discipline amount) (closed : Closed state) :
    Rewarded state next :=
  ⟨gives.closed closed, gives.disciplines, gives.registry, gives.accounts⟩

theorem adjustExpertToken_rewarded (closed : Closed state)
    (ran : adjustExpertToken state name discipline amount = .ok next) : Rewarded state next := by
  rw [adjustExpertToken, bind_ok_iff] at ran
  obtain ⟨account, _, ran⟩ := ran
  by_cases held : state.expertTokens.any (ExpertToken.belongs name discipline) = true
  · rw [if_pos held] at ran
    obtain rfl := pure_ok_iff.mp ran
    have keys : (modifyFirst (ExpertToken.belongs account.name discipline)
        (fun token => { token with amount := token.amount + amount }) state.expertTokens).map
        ExpertToken.key = state.expertTokens.map ExpertToken.key := map_modifyFirst fun _ => rfl
    refine ⟨⟨closed.taught, fun other row listed parent before => ?_⟩, rfl, rfl,
      fun other => adjustExpertiseTokensThroughput_accounts other⟩
    rw [holdsExpertise_iff, adjustExpertiseTokensThroughput] at before ⊢
    rw [keys, ← holdsExpertise_iff] at before ⊢
    exact closed.closed other row listed parent before
  · rw [if_neg held] at ran
    exact (createExpertToken_gives closed ran).rewarded closed

end Tokens

/-! ## The walk over the proposals -/

/-- New tokens for some proposals. -/
structure GivesAll (state next : State) (proposals : List AllocationProposal) : Prop where
  closed : Closed next
  disciplines : next.disciplines = state.disciplines
  registry : next.registry = state.registry
  accounts : ∀ name, state.accountExists name = true → next.accountExists name = true
  tokens : ∃ fresh, next.expertTokens = state.expertTokens ++ fresh ∧
    (fresh.map ExpertToken.key).Nodup ∧ (∀ token ∈ fresh, token.amount = expertiseClaimAmount) ∧
    ∀ name discipline, (name, discipline) ∈ fresh.map ExpertToken.key ↔
      state.holdsExpertise name discipline = false ∧ ∃ proposal ∈ proposals,
        proposal.claimer = name ∧ Covers state.disciplines proposal.disciplineId discipline

/-- No claimer has a token in its discipline, and none gets one with an earlier proposal. -/
def Unblocked (state : State) (proposals : List AllocationProposal) : Prop :=
  (∀ proposal ∈ proposals,
    state.holdsExpertise proposal.claimer proposal.disciplineId = false) ∧
  proposals.Pairwise fun earlier later => earlier.claimer = later.claimer →
    ¬ Covers state.disciplines earlier.disciplineId later.disciplineId

section Walk

variable {state middle next : State} {proposal : AllocationProposal}
  {rest : List AllocationProposal}

theorem GivesAll.nil (closed : Closed state) : GivesAll state state [] where
  closed := closed
  disciplines := rfl
  registry := rfl
  accounts _ known := known
  tokens := ⟨[], (List.append_nil _).symm, .nil, by simp, by simp⟩

theorem GivesAll.cons (first : Gives state middle proposal.claimer proposal.disciplineId
      expertiseClaimAmount) (later : GivesAll middle next rest) :
    GivesAll state next (proposal :: rest) where
  closed := later.closed
  disciplines := later.disciplines.trans first.disciplines
  registry := later.registry.trans first.registry
  accounts name known := later.accounts name (first.accounts name known)
  tokens := by
    obtain ⟨fresh, tokens, distinct, amounts, keys⟩ := first.tokens
    obtain ⟨fresh', tokens', distinct', amounts', keys'⟩ := later.tokens
    refine ⟨fresh ++ fresh', by rw [tokens', tokens, List.append_assoc], ?_,
      List.forall_mem_append.mpr ⟨amounts, amounts'⟩, fun name discipline => ?_⟩
    · rw [List.map_append, List.nodup_append]
      refine ⟨distinct, distinct', ?_⟩
      rintro ⟨name, discipline⟩ early _ late rfl
      have held : middle.holdsExpertise name discipline = true := by
        rw [holdsExpertise_iff, tokens, List.map_append]
        exact List.mem_append_right _ early
      rw [((keys' _ _).mp late).1] at held
      cases held
    · have new : middle.holdsExpertise name discipline = false ↔
          state.holdsExpertise name discipline = false ∧ ¬ (name = proposal.claimer ∧
            Covers state.disciplines proposal.disciplineId discipline) := by
        rw [← Bool.not_eq_true, first.holds, not_or, Bool.not_eq_true]
      rw [List.map_append, List.mem_append, keys, keys', new, first.disciplines]
      constructor
      · rintro (⟨unheld, rfl, covers⟩ | ⟨⟨unheld, _⟩, other, member, same, covers⟩)
        · exact ⟨unheld, proposal, List.mem_cons_self, rfl, covers⟩
        · exact ⟨unheld, other, List.mem_cons_of_mem _ member, same, covers⟩
      · rintro ⟨unheld, other, member, rfl, covers⟩
        by_cases own : other.claimer = proposal.claimer ∧
            Covers state.disciplines proposal.disciplineId discipline
        · exact .inl ⟨unheld, own⟩
        · rcases List.mem_cons.mp member with rfl | listed
          · exact absurd ⟨rfl, covers⟩ own
          · exact .inr ⟨⟨unheld, own⟩, other, listed, rfl, covers⟩

/-- The first proposal blocks those of its claimer in the disciplines that it covers. -/
theorem unblocked_cons (first : Gives state middle proposal.claimer proposal.disciplineId
      expertiseClaimAmount) : Unblocked state (proposal :: rest) ↔
    state.holdsExpertise proposal.claimer proposal.disciplineId = false ∧ Unblocked middle rest := by
  have new (later : AllocationProposal) :
      middle.holdsExpertise later.claimer later.disciplineId = false ↔
        state.holdsExpertise later.claimer later.disciplineId = false ∧
          (proposal.claimer = later.claimer →
            ¬ Covers state.disciplines proposal.disciplineId later.disciplineId) := by
    rw [← Bool.not_eq_true, first.holds, not_or, Bool.not_eq_true, not_and,
      @eq_comm Name proposal.claimer]
  rw [Unblocked, Unblocked, List.forall_mem_cons, List.pairwise_cons, first.disciplines]
  simp only [new]
  constructor
  · rintro ⟨⟨own, unheld⟩, apart, later⟩
    exact ⟨own, fun other member => ⟨unheld other member, apart other member⟩, later⟩
  · rintro ⟨own, unheld, later⟩
    exact ⟨⟨own, fun other member => (unheld other member).1⟩,
      fun other member => (unheld other member).2, later⟩

theorem isQuorum_congr (same : next.registry = state.registry) (proposal : AllocationProposal) :
    proposal.isQuorum next = proposal.isQuorum state := by
  rw [AllocationProposal.isQuorum, AllocationProposal.isQuorum, AllocationProposal.quorumAmount,
    AllocationProposal.quorumAmount, State.totalEci, State.totalEci, same]

/-- There is a quorum only in a discipline that exists. -/
theorem exists_discipline (disciplined : state.Disciplined)
    (quorum : proposal.isQuorum state = true) :
    ∃ row ∈ state.disciplines, row.id = proposal.disciplineId := by
  by_contra none
  have zero : state.totalEci proposal.disciplineId = 0 := by
    refine total_eq_zero fun contribution member => if_neg fun same => none ?_
    obtain ⟨row, listed, id⟩ := disciplined contribution member
    exact ⟨row, listed, id.trans same⟩
  rw [AllocationProposal.isQuorum, if_pos zero] at quorum
  cases quorum

/-- A claim of an account that exists, in a discipline other than the common one. -/
def AllocationProposal.IsClaim (state : State) (proposal : AllocationProposal) : Prop :=
  state.accountExists proposal.claimer = true ∧ proposal.disciplineId ≠ 0

end Walk

namespace Allocations

variable {state : State} {proposals : List AllocationProposal}

/-- The walk ends just if no claim is blocked, and has then given tokens for all that have a
quorum. -/
theorem foldlM_visit (closed : Closed state) (disciplined : state.Disciplined)
    (claims : ∀ proposal ∈ proposals, proposal.IsClaim state) (approved : List Nat) :
    (Unblocked state (proposals.filter (AllocationProposal.isQuorum state)) →
      ∃ result, proposals.foldlM visit (state, approved) = .ok result) ∧
    ∀ result, proposals.foldlM visit (state, approved) = .ok result →
      Unblocked state (proposals.filter (AllocationProposal.isQuorum state)) ∧
      result.2 = approved ++
        (proposals.filter (AllocationProposal.isQuorum state)).map AllocationProposal.id ∧
      GivesAll state result.1 (proposals.filter (AllocationProposal.isQuorum state)) := by
  induction proposals generalizing state approved with
  | nil =>
    refine ⟨fun _ => ⟨_, rfl⟩, fun result ran => ?_⟩
    rw [List.foldlM_nil, pure_ok_iff] at ran
    subst ran
    exact ⟨⟨by simp, .nil⟩, (List.append_nil _).symm, .nil closed⟩
  | cons proposal rest hypothesis =>
    rw [List.forall_mem_cons] at claims
    rw [List.foldlM_cons, visit]
    by_cases quorum : proposal.isQuorum state = true
    · rw [if_pos quorum, List.filter_cons_of_pos quorum]
      have exists_ := exists_discipline disciplined quorum
      have same (middle : State) (gives : Gives state middle proposal.claimer proposal.disciplineId
          expertiseClaimAmount) : rest.filter (AllocationProposal.isQuorum middle) =
          rest.filter (AllocationProposal.isQuorum state) :=
        List.filter_congr fun other _ => isQuorum_congr gives.registry other
      have later (middle : State) (gives : Gives state middle proposal.claimer proposal.disciplineId
          expertiseClaimAmount) := hypothesis (gives.closed closed)
        (by
          rw [State.Disciplined, gives.registry, gives.disciplines]
          exact disciplined)
        (fun other member => ⟨gives.accounts _ (claims.2 other member).1,
          (claims.2 other member).2⟩)
        (approved ++ [proposal.id])
      constructor
      · intro unblocked
        obtain ⟨middle, created, gives⟩ := createExpertToken_runs closed claims.1.1 claims.1.2 exists_
          (unblocked.1 proposal List.mem_cons_self)
        have remaining := ((unblocked_cons gives).mp unblocked).2
        rw [← same middle gives] at remaining
        obtain ⟨result, ran⟩ := (later middle gives).1 remaining
        refine ⟨result, ?_⟩
        rw [created]
        exact ran
      · intro result ran
        rw [bind_ok_iff] at ran
        obtain ⟨_, stepped, ran⟩ := ran
        obtain ⟨middle, created, wrote⟩ := bind_ok_iff.mp stepped
        obtain rfl := pure_ok_iff.mp wrote
        have gives := createExpertToken_gives closed created
        obtain ⟨unblocked, ids, given⟩ := (later middle gives).2 result ran
        rw [same middle gives] at unblocked ids given
        have unheld := (createExpertTokens_needs created).2.2.2
        refine ⟨(unblocked_cons gives).mpr ⟨unheld, unblocked⟩, ?_, .cons gives given⟩
        rw [ids, List.map_cons, List.append_assoc, List.singleton_append]
    · rw [if_neg quorum, List.filter_cons_of_neg quorum]
      exact hypothesis closed disciplined claims.2 approved

/-! ## What holds in every reachable state -/

structure Kept (claims : Allocations) : Prop where
  closed : Closed claims.ledger
  disciplined : claims.ledger.Disciplined
  isClaim : ∀ proposal ∈ claims.proposals, proposal.IsClaim claims.ledger
  known : ∀ proposal ∈ claims.proposals, proposal.id < claims.nextProposalId
  ids : (claims.proposals.map AllocationProposal.id).Nodup
  votes : ∀ vote ∈ claims.votes, vote.proposalId < claims.nextProposalId
  totals : ∀ proposal ∈ claims.proposals,
    proposal.totalVotedExpertise = claims.votedFor proposal

section Steps

variable {claims next : Allocations}

theorem Kept.start (start : Start claims) : Kept claims where
  closed := ⟨start.taught, fun name row _ _ held => by
    rw [holdsExpertise_iff, start.expertTokens] at held
    cases held⟩
  disciplined := start.disciplined
  isClaim := by simp [start.proposals]
  known := by simp [start.proposals]
  ids := by simp [start.proposals]
  votes := by simp [start.votes]
  totals := by simp [start.proposals]

/-- A change of the ledger that keeps expert tokens closed. -/
theorem Kept.rewarded (kept : Kept claims) {ledger : State} (rewarded : Rewarded claims.ledger ledger) :
    Kept { claims with ledger } where
  closed := rewarded.closed
  disciplined := by
    rw [State.Disciplined, rewarded.registry, rewarded.disciplines]
    exact kept.disciplined
  isClaim proposal member := (kept.isClaim proposal member).imp_left (rewarded.accounts _)
  known := kept.known
  ids := kept.ids
  votes := kept.votes
  totals := kept.totals

theorem Kept.elsewhere (kept : Kept claims) {ledger : State} (other : Elsewhere claims.ledger ledger) :
    Kept { claims with ledger } where
  closed := by
    refine ⟨other.disciplines ▸ kept.closed.taught, fun name row listed parent => ?_⟩
    rw [other.disciplines] at listed
    rw [State.holdsExpertise, State.holdsExpertise, other.expertTokens]
    exact kept.closed.closed name row listed parent
  disciplined := other.disciplined
  isClaim proposal member := (kept.isClaim proposal member).imp_left (other.accounts _)
  known := kept.known
  ids := kept.ids
  votes := kept.votes
  totals := kept.totals

/-- A new proposal has a new id, for which there are no votes. -/
theorem Kept.createProposal (kept : Kept claims) {claimer : Name} {disciplineId : Nat}
    (created : claims.createProposal claimer disciplineId = .ok next) : Kept next := by
  simp only [Allocations.createProposal, bind_ok_iff, require_ok_iff, pure_ok_iff] at created
  obtain ⟨_, proper, _, known, _, _, _, _, rfl⟩ := created
  refine ⟨kept.closed, kept.disciplined, ?_, ?_, ?_, ?_, ?_⟩
  · refine List.forall_mem_append.mpr ⟨kept.isClaim, List.forall_mem_singleton.mpr ⟨known, ?_⟩⟩
    exact Nat.pos_iff_ne_zero.mp proper
  · refine List.forall_mem_append.mpr ⟨fun proposal member => ?_,
      List.forall_mem_singleton.mpr (Nat.lt_succ_self _)⟩
    exact Nat.lt_succ_of_lt (kept.known proposal member)
  · rw [List.map_append, List.nodup_append]
    refine ⟨kept.ids, List.nodup_singleton _, ?_⟩
    rintro id old _ new rfl
    obtain ⟨proposal, member, rfl⟩ := List.mem_map.mp old
    rw [List.map_singleton, List.mem_singleton] at new
    exact absurd new (Nat.ne_of_lt (kept.known proposal member))
  · exact fun vote member => Nat.lt_succ_of_lt (kept.votes vote member)
  · refine List.forall_mem_append.mpr ⟨kept.totals, List.forall_mem_singleton.mpr ?_⟩
    exact (total_eq_zero fun vote member =>
      if_neg (Nat.ne_of_lt (kept.votes vote member))).symm

/-- A vote that changes what one proposal has been voted changes its total alike. -/
theorem Kept.cast (kept : Kept claims) {proposal : AllocationProposal} {delta : Int}
    {votes : List AllocationVote}
    (found : claims.proposals.find? (fun other => other.id == proposal.id) = some proposal)
    (known : ∀ vote ∈ votes, vote.proposalId < claims.nextProposalId)
    (counted : ∀ id, total (fun vote => if vote.proposalId = id then vote.weight else 0) votes =
      total (fun vote => if vote.proposalId = id then vote.weight else 0) claims.votes +
        if proposal.id = id then delta else 0) :
    Kept { claims with
      proposals := modifyFirst (fun other => other.id == proposal.id)
        (fun other => { other with totalVotedExpertise := other.totalVotedExpertise + delta })
        claims.proposals
      votes } where
  closed := kept.closed
  disciplined := kept.disciplined
  isClaim := forall_modifyFirst kept.isClaim fun _ _ isClaim => isClaim
  known := forall_modifyFirst kept.known fun _ _ below => below
  ids := nodup_modifyFirst (fun _ => rfl) kept.ids
  votes := known
  totals := by
    intro other member
    have member' := (mem_modifyFirst_iff kept.ids found).mp member
    rw [votedFor, counted]
    rcases member' with ⟨listed, apart⟩ | rfl
    · rw [if_neg fun same => apart same.symm, add_zero]
      exact kept.totals other listed
    · rw [if_pos rfl]
      exact congrArg (· + delta) (kept.totals proposal (List.mem_of_find?_eq_some found))

/-- The signed sum of what a reversed vote takes back and what it gives. -/
theorem reversed_delta {sign weight old : Int} (signed : sign = 1 ∨ sign = -1)
    (against : sign * old < 0) :
    sign * (old.natAbs + weight) = sign * weight - old := by
  rcases signed with rfl | rfl
  · omega
  · omega

theorem Kept.castVote (kept : Kept claims) {sign weight : Int} {again : String}
    {proposal : AllocationProposal} {voter : Name} (signed : sign = 1 ∨ sign = -1)
    (found : claims.proposals.find? (fun other => other.id == proposal.id) = some proposal)
    (voted : claims.castVote sign again proposal voter weight = .ok next) : Kept next := by
  rw [Allocations.castVote, bind_ok_iff] at voted
  obtain ⟨_, _, voted⟩ := voted
  have below := kept.known proposal (List.mem_of_find?_eq_some found)
  cases earlier : claims.votes.find? (AllocationVote.isOf voter proposal.id) with
  | some vote =>
    rw [earlier] at voted
    simp only [bind_ok_iff, require_ok_iff, pure_ok_iff] at voted
    obtain ⟨_, against, rfl⟩ := voted
    have own : vote.proposalId = proposal.id := by
      have hit : vote.isOf voter proposal.id = true := List.find?_some earlier
      rw [AllocationVote.isOf, Bool.and_eq_true, beq_iff_eq, beq_iff_eq] at hit
      exact hit.2
    rw [reversed_delta signed against]
    refine kept.cast found (forall_modifyFirst kept.votes fun _ _ known => known) fun id => ?_
    rw [total_modifyFirst _ earlier, own]
    by_cases same : proposal.id = id
    · rw [if_pos same, if_pos same, if_pos same]
    · rw [if_neg same, if_neg same, if_neg same, sub_zero]
  | none =>
    rw [earlier] at voted
    obtain rfl := pure_ok_iff.mp voted
    refine kept.cast found (List.forall_mem_append.mpr ⟨kept.votes,
      List.forall_mem_singleton.mpr below⟩) fun id => ?_
    rw [total_append, total_cons, total_nil, add_zero]

theorem Kept.vote (kept : Kept claims) {proposalId : Nat} {voter : Name} {votingPower : Int}
    (voted : claims.vote proposalId voter votingPower = .ok next) : Kept next := by
  simp only [Allocations.vote, bind_ok_iff] at voted
  obtain ⟨_, _, proposal, got, _, _, token, _, voted⟩ := voted
  have found := expect_ok_iff.mp got
  have same : proposal.id = proposalId := by simpa using List.find?_some found
  subst same
  by_cases positive : votingPower = 10000
  · rw [if_pos positive] at voted
    exact kept.castVote (.inl rfl) found voted
  · rw [if_neg positive] at voted
    exact kept.castVote (.inr rfl) found voted

/-- The proposals that the walk grants. -/
def approvable (claims : Allocations) : List AllocationProposal :=
  (claims.proposals.filter fun proposal => !proposal.isExpired claims.ledger).filter
    (AllocationProposal.isQuorum claims.ledger)

/-- The end of a block, as a fact about the state before it. -/
theorem Kept.processProposals (kept : Kept claims) :
    (Unblocked claims.ledger claims.approvable → ∃ next, claims.processProposals = .ok next) ∧
    ∀ next, claims.processProposals = .ok next →
      Unblocked claims.ledger claims.approvable ∧
      GivesAll claims.ledger next.ledger claims.approvable ∧
      next.proposals = (claims.proposals.filter fun proposal =>
        !proposal.isExpired claims.ledger && !proposal.isQuorum claims.ledger) ∧
      next.votes = claims.votes ∧ next.nextProposalId = claims.nextProposalId := by
  let live := claims.proposals.filter fun proposal => !proposal.isExpired claims.ledger
  have isClaim : ∀ proposal ∈ live, proposal.IsClaim claims.ledger :=
    fun proposal member => kept.isClaim proposal (List.mem_of_mem_filter member)
  have walk := foldlM_visit kept.closed kept.disciplined isClaim []
  have processed : claims.processProposals = (live.foldlM visit (claims.ledger, [])).bind
      fun result => .ok { claims with
        ledger := result.1
        proposals := live.filter fun proposal => !result.2.contains proposal.id } := rfl
  rw [processed]
  constructor
  · intro unblocked
    obtain ⟨result, ran⟩ := walk.1 unblocked
    exact ⟨_, by rw [ran]; rfl⟩
  · intro next ran
    obtain ⟨result, walked, wrote⟩ := bind_ok_iff.mp ran
    obtain rfl := Except.ok.inj wrote
    obtain ⟨unblocked, ids, given⟩ := walk.2 result walked
    refine ⟨unblocked, given, ?_, rfl, rfl⟩
    change live.filter _ = _
    rw [List.nil_append] at ids
    have approved : ∀ proposal ∈ live, (!result.2.contains proposal.id) =
        !proposal.isQuorum claims.ledger := by
      intro proposal member
      rw [ids, Bool.not_eq_eq_eq_not, Bool.not_not, Bool.eq_iff_iff, List.contains_iff_mem,
        List.mem_map]
      constructor
      · rintro ⟨other, among, same⟩
        obtain ⟨listed, quorum⟩ := List.mem_filter.mp among
        rwa [List.inj_on_of_nodup_map kept.ids (List.mem_of_mem_filter listed)
          (List.mem_of_mem_filter member) same] at quorum
      · exact fun quorum => ⟨proposal, List.mem_filter.mpr ⟨member, quorum⟩, rfl⟩
    rw [List.filter_congr approved, List.filter_filter]
    exact List.filter_congr fun proposal _ => Bool.and_comm _ _

/-- After the end of a block. -/
theorem Kept.processed (kept : Kept claims) (ran : claims.processProposals = .ok next) :
    Kept next := by
  obtain ⟨_, given, proposals, votes, nextId⟩ := kept.processProposals.2 next ran
  have within : ∀ proposal ∈ next.proposals, proposal ∈ claims.proposals :=
    fun proposal member => List.mem_of_mem_filter (proposals ▸ member)
  refine ⟨given.closed, ?_, fun proposal member => ?_, fun proposal member => ?_, ?_, ?_,
    fun proposal member => ?_⟩
  · rw [State.Disciplined, given.registry, given.disciplines]
    exact kept.disciplined
  · exact (kept.isClaim proposal (within proposal member)).imp_left (given.accounts _)
  · exact nextId ▸ kept.known proposal (within proposal member)
  · rw [proposals]
    exact kept.ids.sublist (List.filter_sublist.map _)
  · rw [votes, nextId]
    exact kept.votes
  · rw [votedFor, votes]
    exact kept.totals proposal (within proposal member)

theorem Kept.step (kept : Kept claims) (step : Step claims next) : Kept next := by
  cases step with
  | elsewhere ledger other => exact kept.elsewhere other
  | event event applied =>
    cases event with
    | createExpertToken name discipline amount =>
      obtain ⟨ledger, created, wrote⟩ := bind_ok_iff.mp applied
      obtain rfl := pure_ok_iff.mp wrote
      exact kept.rewarded ((createExpertToken_gives kept.closed created).rewarded kept.closed)
    | adjustExpertToken name discipline delta =>
      obtain ⟨ledger, adjusted, wrote⟩ := bind_ok_iff.mp applied
      obtain rfl := pure_ok_iff.mp wrote
      exact kept.rewarded (adjustExpertToken_rewarded kept.closed adjusted)
    | createProposal claimer disciplineId => exact kept.createProposal applied
    | vote proposalId voter votingPower => exact kept.vote applied
    | processProposals => exact kept.processed applied

theorem Reachable.kept (reachable : Reachable claims) : Kept claims := by
  obtain ⟨start, begun, steps⟩ := reachable
  induction steps with
  | refl => exact .start begun
  | tail _ last hypothesis => exact hypothesis.step last

/-! ## The end of a block in every reachable state -/

/-- A live proposal has a quorum if its votes reach one, and there is expertise. -/
theorem Kept.isQuorum_iff (kept : Kept claims) {proposal : AllocationProposal}
    (member : proposal ∈ claims.proposals) (unexpired : proposal.isExpired claims.ledger = false) :
    proposal.isQuorum claims.ledger = true ↔
      claims.Reaches proposal ∧ claims.ledger.totalEci proposal.disciplineId ≠ 0 := by
  rw [AllocationProposal.isQuorum, kept.totals proposal member, Reaches]
  by_cases zero : claims.ledger.totalEci proposal.disciplineId = 0
  · rw [if_pos zero]
    exact iff_of_false Bool.false_ne_true fun both => both.2 zero
  · rw [if_neg zero, decide_eq_true_eq]
    exact ⟨fun reaches => ⟨⟨unexpired, reaches⟩, zero⟩, fun both => both.1.2⟩

/-- Where every proposal that is due has expertise behind it, the walk grants those. -/
theorem Kept.isQuorum_eq (kept : Kept claims)
    (expert : ∀ proposal ∈ claims.due, claims.ledger.totalEci proposal.disciplineId ≠ 0)
    {proposal : AllocationProposal} (member : proposal ∈ claims.proposals)
    (unexpired : proposal.isExpired claims.ledger = false) :
    proposal.isQuorum claims.ledger = decide (claims.Reaches proposal) := by
  rw [Bool.eq_iff_iff, kept.isQuorum_iff member unexpired, decide_eq_true_eq]
  refine and_iff_left_of_imp fun reaches => expert proposal ?_
  exact List.mem_filter.mpr ⟨member, decide_eq_true reaches⟩

theorem Kept.due_eq (kept : Kept claims)
    (expert : ∀ proposal ∈ claims.due, claims.ledger.totalEci proposal.disciplineId ≠ 0) :
    claims.due = claims.approvable := by
  rw [due, approvable, List.filter_filter]
  refine List.filter_congr fun proposal member => ?_
  cases expired : proposal.isExpired claims.ledger with
  | true => simp [Reaches, expired]
  | false => rw [kept.isQuorum_eq expert member expired, Bool.not_false, Bool.and_true]

/-- In every reachable state the totals are those of the votes. The end of a block then grants what
is due exactly if no claim that is due is held already, and each is in a discipline with
expertise. -/
theorem Reachable.allocates (reachable : Reachable claims) :
    (∀ proposal ∈ claims.proposals,
      proposal.totalVotedExpertise = claims.votedFor proposal) ∧
    (claims.Allocates ↔ claims.Allocatable) := by
  have kept := reachable.kept
  refine ⟨kept.totals, ?_⟩
  constructor
  · rintro ⟨next, ran, granted⟩
    obtain ⟨unblocked, _, proposals, _, _⟩ := kept.processProposals.2 next ran
    have expert : ∀ proposal ∈ claims.due, claims.ledger.totalEci proposal.disciplineId ≠ 0 := by
      intro proposal among zero
      obtain ⟨member, reaches⟩ := List.mem_filter.mp among
      rw [decide_eq_true_eq] at reaches
      have none : proposal.isQuorum claims.ledger = false := by
        rw [← Bool.not_eq_true, kept.isQuorum_iff member reaches.1, not_and_not_right]
        exact fun _ => zero
      have stays : proposal ∈ next.proposals := by
        rw [proposals, List.mem_filter, reaches.1, none]
        exact ⟨member, rfl⟩
      rw [granted.proposals, List.mem_filter, decide_eq_true reaches] at stays
      simp at stays
    rw [← kept.due_eq expert] at unblocked
    exact ⟨unblocked.1, unblocked.2, expert⟩
  · rintro ⟨unheld, apart, expert⟩
    have unblocked : Unblocked claims.ledger claims.approvable := kept.due_eq expert ▸ ⟨unheld, apart⟩
    obtain ⟨next, ran⟩ := kept.processProposals.1 unblocked
    obtain ⟨_, given, proposals, votes, _⟩ := kept.processProposals.2 next ran
    rw [← kept.due_eq expert] at given
    have rest : next.proposals = claims.proposals.filter fun proposal =>
        !proposal.isExpired claims.ledger && !decide (claims.Reaches proposal) := by
      rw [proposals]
      refine List.filter_congr fun proposal member => ?_
      cases expired : proposal.isExpired claims.ledger with
      | true => rfl
      | false => rw [kept.isQuorum_eq expert member expired]
    exact ⟨next, ran, unheld, given.tokens, rest, votes⟩

end Steps

/-- The states after some events are reachable. -/
theorem Reachable.of_run {start claims : Allocations} {events : List Event} (begun : Start start)
    (ran : events.foldlM Event.apply start = .ok claims) : Reachable claims := by
  refine ⟨start, begun, foldlM_invariant
    (fun _ state => Relation.ReflTransGen Step start state) ?_ .refl ran⟩
  exact fun event _ _ _ before applied => before.tail (.event event applied)

/-- A laboratory and an expert, before the first expert token. -/
def Sample.start : Allocations where
  ledger :=
    { GenesisState.blank Ledger.Sample.genesis [] with
      accounts := [freshAccount 0 "laboratory", freshAccount 1 "expert"]
      disciplines := [⟨0, commonDisciplineId, 0⟩, ⟨1, "physics", 0⟩, ⟨2, "optics", 1⟩]
      registry := ⟨[], [], [⟨1, 0, 0, 1000, []⟩, ⟨2, 0, 0, 1000, []⟩], [], [], []⟩ }
  proposals := []
  nextProposalId := 0
  votes := []

theorem Sample.start_start : Start Sample.start where
  expertTokens := rfl
  taught := ⟨rfl, by decide⟩
  disciplined := by
    rw [State.Disciplined]
    decide
  proposals := rfl
  votes := rfl

/-- The laboratory claims expertise in optics and in physics, and the expert votes for some of the
proposals. -/
def Sample.events (voted : List Nat) : List Event :=
  [.createExpertToken "expert" 2 2500, .createProposal "laboratory" 2,
    .createProposal "laboratory" 1] ++ voted.map fun id => .vote id "expert" 10000

/-- With a vote for one of the proposals, it is granted. -/
theorem Reachable.allocates_sample : ∃ claims, Reachable claims ∧ claims.due.length = 1 ∧
    claims.Allocates := by
  obtain ⟨claims, ran, passes⟩ := exists_ok_of_any
    ((Sample.events [0]).foldlM Event.apply Sample.start)
    (fun claims => claims.due.length = 1 ∧ ∀ proposal ∈ claims.due,
      claims.ledger.holdsExpertise proposal.claimer proposal.disciplineId = false ∧
        claims.ledger.totalEci proposal.disciplineId ≠ 0) (by decide +kernel)
  rw [decide_eq_true_eq] at passes
  obtain ⟨single, all⟩ := passes
  have reachable := Reachable.of_run Sample.start_start ran
  have apart : claims.due.Pairwise fun earlier later => earlier.claimer = later.claimer →
      ¬ Covers claims.ledger.disciplines earlier.disciplineId later.disciplineId := by
    obtain ⟨proposal, only⟩ := List.length_eq_one_iff.mp single
    rw [only]
    exact List.pairwise_singleton _ _
  exact ⟨claims, reachable, single, reachable.allocates.2.mpr
    ⟨fun proposal member => (all proposal member).1, apart,
      fun proposal member => (all proposal member).2⟩⟩

/-- With votes for both, the grant of optics gives a token in physics, and the other grant throws. -/
theorem Reachable.allocates_fails : ∃ claims, Reachable claims ∧ ¬ claims.Allocates := by
  obtain ⟨claims, ran, throws⟩ := exists_ok_of_any
    ((Sample.events [0, 1]).foldlM Event.apply Sample.start)
    (fun claims => !claims.processProposals.isOk) (by decide +kernel)
  refine ⟨claims, .of_run Sample.start_start ran, ?_⟩
  rintro ⟨next, processed, _⟩
  rw [processed] at throws
  cases throws

end Allocations

end DeipChain.Ledger
