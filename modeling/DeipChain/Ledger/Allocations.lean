import DeipChain.Ledger.Writes
import Mathlib.Logic.Relation

/-!
# Proposals to allocate expertise

An account without expert tokens in a discipline can propose to be given some, and the accounts
that have tokens there vote with what they have. At the end of each block the proposals that have
expired are removed, and those whose votes reach a part of all the expertise of the discipline are
granted: the account gets a token in the discipline, and in those above it. Whether the account
has got one in the meantime is not asked again.
-/
namespace DeipChain.Ledger

open DeipChain.Result DeipChain.Table

/-- `expertise_allocation_proposal_object` -/
structure AllocationProposal where
  id : Nat
  claimer : Name
  disciplineId : Nat
  totalVotedExpertise : Int
  quorum : Nat
  creationTime : Time
  expirationTime : Time
deriving DecidableEq

/-- `expertise_allocation_proposal_vote_object` -/
structure AllocationVote where
  proposalId : Nat
  disciplineId : Nat
  voter : Name
  weight : Int
  votingTime : Time
deriving DecidableEq

/-- The key of `by_voter_and_expertise_allocation_proposal_id`. -/
def AllocationVote.isOf (voter : Name) (proposalId : Nat) (vote : AllocationVote) : Bool :=
  vote.voter == voter && vote.proposalId == proposalId

/-- The ledger with the proposals, by their ids, and the votes for them. -/
structure Allocations where
  ledger : State
  proposals : List AllocationProposal
  nextProposalId : Nat
  votes : List AllocationVote

/-- `expert_token_exists_by_account_and_discipline` -/
def State.holdsExpertise (state : State) (name : Name) (discipline : Nat) : Bool :=
  state.expertTokens.any (ExpertToken.belongs name discipline)

namespace Allocations

/-! ## Operations -/

/-- The evaluator and the validation of `create_expertise_allocation_proposal_operation`. -/
def createProposal (claims : Allocations) (claimer : Name) (disciplineId : Nat) :
    Except String Allocations := do
  require (0 < disciplineId) "Cannot use root discipline (id = 0)"
  require (claims.ledger.accountExists claimer = true) unknownKey
  require (claims.ledger.holdsExpertise claimer disciplineId = false)
    "Expert token for account \"${1}\" and discipline \"${2}\" already exists"
  require (∀ proposal ∈ claims.proposals,
      ¬ (proposal.claimer = claimer ∧ proposal.disciplineId = disciplineId))
    "You have created expertise allocation proposal already"
  return { claims with
    proposals := claims.proposals ++
      [{ id := claims.nextProposalId
         claimer
         disciplineId
         totalVotedExpertise := 0
         quorum := 15 * 100
         creationTime := claims.ledger.props.time
         expirationTime := claims.ledger.props.time + 14 * 86400 }]
    nextProposalId := claims.nextProposalId + 1 }

/-- A vote for or against a proposal, by its sign. A second vote has to reverse the first one. -/
def castVote (sign : Int) (again : String) (claims : Allocations) (proposal : AllocationProposal)
    (voter : Name) (weight : Int) : Except String Allocations := do
  require (0 < weight) "Weight must be greater than zero"
  match claims.votes.find? (AllocationVote.isOf voter proposal.id) with
  | some vote => do
    require (sign * vote.weight < 0) again
    return { claims with
      proposals := modifyFirst (fun other => other.id == proposal.id)
        (fun other => { other with
          totalVotedExpertise := other.totalVotedExpertise + sign * (vote.weight.natAbs + weight) })
        claims.proposals
      votes := modifyFirst (AllocationVote.isOf voter proposal.id)
        (fun vote => { vote with weight := sign * weight }) claims.votes }
  | none =>
    return { claims with
      proposals := modifyFirst (fun other => other.id == proposal.id)
        (fun other => { other with
          totalVotedExpertise := other.totalVotedExpertise + sign * weight }) claims.proposals
      votes := claims.votes ++
        [{ proposalId := proposal.id
           disciplineId := proposal.disciplineId
           voter
           weight := sign * weight
           votingTime := claims.ledger.props.time }] }

def upvote : Allocations → AllocationProposal → Name → Int → Except String Allocations :=
  castVote 1 "User \"${1}\" has voted positively for proposal \"${2}\" already"

def downvote : Allocations → AllocationProposal → Name → Int → Except String Allocations :=
  castVote (-1) "User \"${1}\" has voted negatively for proposal \"${2}\" already"

/-- The evaluator and the validation of `vote_for_expertise_allocation_proposal_operation`. -/
def vote (claims : Allocations) (proposalId : Nat) (voter : Name) (votingPower : Int) :
    Except String Allocations := do
  require (votingPower = 10000 ∨ votingPower = -10000) "Voting power must be -100% or +100%"
  let proposal ← expect (claims.proposals.find? fun proposal => proposal.id == proposalId) unknownKey
  require (claims.ledger.accountExists voter = true) unknownKey
  let token ← expect
    (claims.ledger.expertTokens.find? (ExpertToken.belongs voter proposal.disciplineId))
    "Expertise token ${1} for ${2} does not exist"
  if votingPower = 10000 then claims.upvote proposal voter token.amount
  else claims.downvote proposal voter token.amount

end Allocations

/-! ## The end of a block -/

/-- The expertise of all research contents in a discipline. -/
def State.totalEci (state : State) (discipline : Nat) : Int :=
  total (fun contribution => if contribution.disciplineId = discipline then contribution.eci else 0)
    state.registry.expertiseContributions

/-- The part of the expertise of a discipline that is a quorum. -/
def AllocationProposal.quorumAmount (state : State) (proposal : AllocationProposal) : Int :=
  (proposal.quorum * state.totalEci proposal.disciplineId).tdiv 10000

/-- `is_quorum` -/
def AllocationProposal.isQuorum (state : State) (proposal : AllocationProposal) : Bool :=
  if state.totalEci proposal.disciplineId = 0 then false
  else decide (proposal.quorumAmount state ≤ proposal.totalVotedExpertise)

def AllocationProposal.isExpired (state : State) (proposal : AllocationProposal) : Bool :=
  decide (proposal.expirationTime < state.props.time)

namespace Allocations

/-- One proposal of the walk, with the approved ones before it. -/
def visit (progress : State × List Nat) (proposal : AllocationProposal) :
    Except String (State × List Nat) :=
  if proposal.isQuorum progress.1 then do
    let granted ← createExpertToken progress.1 proposal.claimer proposal.disciplineId
      expertiseClaimAmount
    return (granted, progress.2 ++ [proposal.id])
  else return progress

/-- `process_expertise_allocation_proposals` -/
def processProposals (claims : Allocations) : Except String Allocations := do
  let live := claims.proposals.filter fun proposal => !proposal.isExpired claims.ledger
  let (ledger, approved) ← live.foldlM visit (claims.ledger, [])
  return { claims with
    ledger
    proposals := live.filter fun proposal => !approved.contains proposal.id }

end Allocations

/-! ## Runs -/

/-- The disciplines of genesis: each has the number of those before it as its id, and its parent is
one of those or the common discipline. -/
structure Taught (disciplines : List Discipline) : Prop where
  ids : disciplines.map Discipline.id = List.range disciplines.length
  parents : ∀ row ∈ disciplines, row.parentId = 0 ∨ row.parentId < row.id

/-- The contributions are to disciplines that exist. -/
def State.Disciplined (state : State) : Prop :=
  ∀ contribution ∈ state.registry.expertiseContributions,
    ∃ row ∈ state.disciplines, row.id = contribution.disciplineId

/-- What the rest of the code may do to the ledger. It gives nobody expert tokens, and it removes
no account. -/
structure Elsewhere (state next : State) : Prop where
  accounts : ∀ name, state.accountExists name = true → next.accountExists name = true
  expertTokens : next.expertTokens = state.expertTokens
  disciplines : next.disciplines = state.disciplines
  disciplined : next.Disciplined

namespace Allocations

/-- What writes expert tokens, and what writes proposals and votes. -/
inductive Event where
  | createExpertToken (name : Name) (discipline : Nat) (amount : Int)
  | adjustExpertToken (name : Name) (discipline : Nat) (delta : Int)
  | createProposal (claimer : Name) (disciplineId : Nat)
  | vote (proposalId : Nat) (voter : Name) (votingPower : Int)
  | processProposals

def Event.apply (claims : Allocations) : Event → Except String Allocations
  | .createExpertToken name discipline amount => do
    let ledger ← Ledger.createExpertToken claims.ledger name discipline amount
    return { claims with ledger }
  | .adjustExpertToken name discipline delta => do
    let ledger ← Ledger.adjustExpertToken claims.ledger name discipline delta
    return { claims with ledger }
  | .createProposal claimer disciplineId => claims.createProposal claimer disciplineId
  | .vote proposalId voter votingPower => claims.vote proposalId voter votingPower
  | .processProposals => claims.processProposals

inductive Step (claims : Allocations) : Allocations → Prop
  | event {next : Allocations} (event : Event) (applied : event.apply claims = .ok next) :
    Step claims next
  | elsewhere (next : State) (kept : Elsewhere claims.ledger next) :
    Step claims { claims with ledger := next }

/-- Before the first expert token. -/
structure Start (claims : Allocations) : Prop where
  expertTokens : claims.ledger.expertTokens = []
  taught : Taught claims.ledger.disciplines
  disciplined : claims.ledger.Disciplined
  proposals : claims.proposals = []
  votes : claims.votes = []

def Reachable (claims : Allocations) : Prop :=
  ∃ start, Start start ∧ Relation.ReflTransGen Step start claims

/-! ## What the end of a block is for -/

/-- What the votes for a proposal weigh. -/
def votedFor (claims : Allocations) (proposal : AllocationProposal) : Int :=
  total (fun vote => if vote.proposalId = proposal.id then vote.weight else 0) claims.votes

/-- A live proposal whose votes reach the quorum. -/
def Reaches (claims : Allocations) (proposal : AllocationProposal) : Prop :=
  proposal.isExpired claims.ledger = false ∧
    proposal.quorumAmount claims.ledger ≤ claims.votedFor proposal

instance (claims : Allocations) (proposal : AllocationProposal) :
    Decidable (claims.Reaches proposal) := inferInstanceAs (Decidable (_ ∧ _))

/-- Those of the proposals, in the order of their ids. -/
def due (claims : Allocations) : List AllocationProposal :=
  claims.proposals.filter fun proposal => claims.Reaches proposal

end Allocations

/-- One discipline is another one, or above it. -/
def Covers (disciplines : List Discipline) : Nat → Nat → Prop :=
  Relation.ReflTransGen fun child parent =>
    ∃ row ∈ disciplines, row.id = child ∧ row.parentId = parent ∧ parent ≠ 0

/-- The account and the discipline of a token. -/
def ExpertToken.key (token : ExpertToken) : Name × Nat := (token.accountName, token.disciplineId)

namespace Allocations

/-- The proposals that are due have been granted, and no others: each claimer has one new token in
the claimed discipline, and in those above it where it had none. -/
structure Granted (claims next : Allocations) : Prop where
  claimed : ∀ proposal ∈ claims.due,
    claims.ledger.holdsExpertise proposal.claimer proposal.disciplineId = false
  tokens : ∃ fresh, next.ledger.expertTokens = claims.ledger.expertTokens ++ fresh ∧
    (fresh.map ExpertToken.key).Nodup ∧
    (∀ token ∈ fresh, token.amount = expertiseClaimAmount) ∧
    ∀ name discipline, (name, discipline) ∈ fresh.map ExpertToken.key ↔
      claims.ledger.holdsExpertise name discipline = false ∧
        ∃ proposal ∈ claims.due, proposal.claimer = name ∧
          Covers claims.ledger.disciplines proposal.disciplineId discipline
  proposals : next.proposals = claims.proposals.filter fun proposal =>
    !proposal.isExpired claims.ledger && !decide (claims.Reaches proposal)
  votes : next.votes = claims.votes

/-- The end of the block does not throw, and grants what is due. -/
def Allocates (claims : Allocations) : Prop :=
  ∃ next, claims.processProposals = .ok next ∧ claims.Granted next

/-- No claimer of a proposal that is due has a token in the discipline, or gets one with an earlier
proposal of the block, and a discipline without expertise has no proposal with a quorum of it. -/
structure Allocatable (claims : Allocations) : Prop where
  unheld : ∀ proposal ∈ claims.due,
    claims.ledger.holdsExpertise proposal.claimer proposal.disciplineId = false
  apart : claims.due.Pairwise fun earlier later => earlier.claimer = later.claimer →
    ¬ Covers claims.ledger.disciplines earlier.disciplineId later.disciplineId
  expert : ∀ proposal ∈ claims.due, claims.ledger.totalEci proposal.disciplineId ≠ 0

end Allocations

/-! ## The tokens of a grant -/

section Tokens

variable {state next : State} {name : Name} {discipline : Nat} {amount : Int}

theorem holdsExpertise_iff : state.holdsExpertise name discipline = true ↔
    (name, discipline) ∈ state.expertTokens.map ExpertToken.key := by
  rw [State.holdsExpertise, List.any_eq_true, List.mem_map]
  refine exists_congr fun token => and_congr_right fun _ => ?_
  rw [ExpertToken.belongs, Bool.and_eq_true, beq_iff_eq, beq_iff_eq, ExpertToken.key, Prod.mk.injEq]

theorem not_holdsExpertise_iff : state.holdsExpertise name discipline = false ↔
    (name, discipline) ∉ state.expertTokens.map ExpertToken.key := by
  rw [← holdsExpertise_iff, Bool.not_eq_true]

namespace Taught

variable {disciplines : List Discipline}

theorem lt_length (taught : Taught disciplines) {row : Discipline} (listed : row ∈ disciplines) :
    row.id < disciplines.length := by
  have among := List.mem_map_of_mem (f := Discipline.id) listed
  rwa [taught.ids, List.mem_range] at among

theorem unique (taught : Taught disciplines) {one two : Discipline} (first : one ∈ disciplines)
    (second : two ∈ disciplines) (same : one.id = two.id) : one = two := by
  have distinct : (disciplines.map Discipline.id).Nodup := taught.ids ▸ List.nodup_range
  exact List.inj_on_of_nodup_map distinct first second same

theorem exists_row (taught : Taught disciplines) {id : Nat} (below : id < disciplines.length) :
    ∃ row ∈ disciplines, row.id = id := by
  have among : id ∈ disciplines.map Discipline.id := taught.ids ▸ List.mem_range.mpr below
  exact List.mem_map.mp among

theorem find? (taught : Taught disciplines) {row : Discipline} (listed : row ∈ disciplines) :
    disciplines.find? (fun other => other.id == row.id) = some row := by
  have any : (disciplines.find? fun other => other.id == row.id).isSome :=
    List.find?_isSome.mpr ⟨row, listed, beq_self_eq_true row.id⟩
  obtain ⟨other, found⟩ := Option.isSome_iff_exists.mp any
  have same : other.id = row.id := by simpa using List.find?_some found
  rw [found, taught.unique (List.mem_of_find?_eq_some found) listed same]

/-- The disciplines above one are those above its parent. -/
theorem covers_iff (taught : Taught disciplines) {row : Discipline} (listed : row ∈ disciplines)
    (other : Nat) : Covers disciplines row.id other ↔
      other = row.id ∨ row.parentId ≠ 0 ∧ Covers disciplines row.parentId other := by
  constructor
  · intro covers
    rcases Relation.ReflTransGen.cases_head covers with rfl | ⟨parent, first, rest⟩
    · exact .inl rfl
    · obtain ⟨same, member, id, rfl, proper⟩ := first
      obtain rfl := taught.unique member listed id
      exact .inr ⟨proper, rest⟩
  · rintro (rfl | ⟨proper, rest⟩)
    · exact .refl
    · exact .head ⟨row, listed, rfl, rfl, proper⟩ rest

end Taught

/-- Whoever has a token in a discipline has one in its parent, for disciplines up to one. -/
def ClosedUpTo (state : State) (name : Name) (bound : Nat) : Prop :=
  ∀ row ∈ state.disciplines, row.id ≤ bound → row.parentId ≠ 0 →
    state.holdsExpertise name row.id = true → state.holdsExpertise name row.parentId = true

theorem ClosedUpTo.covers {bound child parent : Nat} (taught : Taught state.disciplines)
    (closed : ClosedUpTo state name bound) (below : child ≤ bound)
    (covers : Covers state.disciplines child parent)
    (holds : state.holdsExpertise name child = true) :
    parent ≤ bound ∧ state.holdsExpertise name parent = true := by
  induction covers with
  | refl => exact ⟨below, holds⟩
  | tail _ last hypothesis =>
    obtain ⟨row, listed, rfl, rfl, proper⟩ := last
    refine ⟨?_, closed row listed hypothesis.1 proper hypothesis.2⟩
    rcases taught.parents row listed with root | less
    · exact absurd root proper
    · exact Nat.le_trans (Nat.le_of_lt less) hypothesis.1

/-- New tokens of one account, in a discipline and in those above it where it had none. -/
structure Gives (state next : State) (name : Name) (discipline : Nat) (amount : Int) : Prop where
  disciplines : next.disciplines = state.disciplines
  registry : next.registry = state.registry
  time : next.props.time = state.props.time
  accounts : ∀ name, state.accountExists name = true → next.accountExists name = true
  tokens : ∃ fresh, next.expertTokens = state.expertTokens ++ fresh ∧
    (fresh.map ExpertToken.key).Nodup ∧ (∀ token ∈ fresh, token.amount = amount) ∧
    ∀ other above, (other, above) ∈ fresh.map ExpertToken.key ↔
      state.holdsExpertise other above = false ∧ other = name ∧
        Covers state.disciplines discipline above

theorem addExpertToken_ok_iff : addExpertToken state name discipline amount = .ok next ↔
    state.holdsExpertise name discipline = false ∧
      next = adjustExpertiseTokensThroughput
        { state with expertTokens := state.expertTokens ++ [⟨name, discipline, amount⟩] }
        name amount := by
  rw [addExpertToken, bind_ok_iff]
  simp only [require_ok_iff, pure_ok_iff]
  constructor
  · rintro ⟨_, unheld, same⟩
    exact ⟨unheld, same.symm⟩
  · rintro ⟨unheld, same⟩
    exact ⟨⟨⟩, unheld, same.symm⟩

/-- The rest of the ledger does not notice an expert token. -/
theorem adjustExpertiseTokensThroughput_accounts {tokens : List ExpertToken} (other : Name)
    (known : state.accountExists other = true) :
    (adjustExpertiseTokensThroughput { state with expertTokens := tokens } name
      amount).accountExists other = true := by
  obtain ⟨account, member, named⟩ := List.any_eq_true.mp known
  have names : (modifyAccount state.accounts name fun account => { account with
      expertiseTokensBalance := max (account.expertiseTokensBalance + amount) 0 }).map Account.name =
      state.accounts.map Account.name := map_modifyFirst fun _ => rfl
  have among : account.name ∈ state.accounts.map Account.name := List.mem_map_of_mem member
  rw [← names, List.mem_map] at among
  obtain ⟨later, listed, same⟩ := among
  exact List.any_eq_true.mpr ⟨later, listed, by rwa [same]⟩

theorem holdsExpertise_added (other : Name) (above : Nat) :
    (adjustExpertiseTokensThroughput
      { state with expertTokens := state.expertTokens ++ [⟨name, discipline, amount⟩] } name
      amount).holdsExpertise other above = true ↔
      state.holdsExpertise other above = true ∨ other = name ∧ above = discipline := by
  rw [holdsExpertise_iff, holdsExpertise_iff, adjustExpertiseTokensThroughput, List.map_append,
    List.mem_append, List.map_singleton, List.mem_singleton, ExpertToken.key, Prod.mk.injEq]

/-- A token is created with those above it that the account has not got. -/
theorem createExpertTokens_gives {levels : Nat} (taught : Taught state.disciplines)
    (known : state.accountExists name = true) (proper : discipline ≠ 0)
    (exists_ : discipline < state.disciplines.length) (enough : discipline < levels)
    (closed : ClosedUpTo state name discipline)
    (unheld : state.holdsExpertise name discipline = false) :
    ∃ next, createExpertTokens name amount levels state discipline = .ok next ∧
      Gives state next name discipline amount := by
  induction levels generalizing state discipline with
  | zero => omega
  | succ levels hypothesis =>
    obtain ⟨row, listed, rfl⟩ := taught.exists_row exists_
    obtain ⟨account, found⟩ := Option.isSome_iff_exists.mp (List.find?_isSome.mpr
      (List.any_eq_true.mp known))
    let token : ExpertToken := ⟨name, row.id, amount⟩
    let created := adjustExpertiseTokensThroughput
      { state with expertTokens := state.expertTokens ++ [token] } name amount
    have added : addExpertToken state name row.id amount = .ok created :=
      addExpertToken_ok_iff.mpr ⟨unheld, rfl⟩
    have holds (other : Name) (above : Nat) : created.holdsExpertise other above = true ↔
        state.holdsExpertise other above = true ∨ other = name ∧ above = row.id :=
      holdsExpertise_added other above
    have kept (other : Name) (exists_ : state.accountExists other = true) :
        created.accountExists other = true := adjustExpertiseTokensThroughput_accounts other exists_
    have begun : createExpertTokens name amount (levels + 1) state row.id =
        if row.parentId ≠ 0 ∧ created.holdsExpertise name row.parentId = false then
          createExpertTokens name amount levels created row.parentId
        else .ok created := by
      rw [createExpertTokens, State.getAccount, found, State.getDisciplineById, taught.find? listed,
        added, require, if_pos proper]
      rfl
    rw [begun]
    by_cases missing : row.parentId ≠ 0 ∧ created.holdsExpertise name row.parentId = false
    · rw [if_pos missing]
      have less := (taught.parents row listed).resolve_left missing.1
      have later : ClosedUpTo created name row.parentId := by
        intro other member below parent held
        have before := ((holds _ _).mp held).resolve_right (by omega)
        exact (holds _ _).mpr (.inl (closed other member (by omega) parent before))
      have taught' : Taught created.disciplines := taught
      obtain ⟨next, ran, gives⟩ := hypothesis taught' (kept name known) missing.1
        (by exact Nat.lt_trans less exists_) (by omega) later missing.2
      obtain ⟨fresh, tokens, distinct, amounts, keys⟩ := gives.tokens
      have new (other : Name) (above : Nat) : created.holdsExpertise other above = false ↔
          state.holdsExpertise other above = false ∧ ¬ (other = name ∧ above = row.id) := by
        rw [← Bool.not_eq_true, holds, not_or, Bool.not_eq_true]
      refine ⟨next, ran, gives.disciplines, gives.registry, gives.time,
        fun other exists_ => gives.accounts other (kept other exists_), token :: fresh, ?_, ?_, ?_, ?_⟩
      · rw [tokens]
        exact List.append_assoc _ _ _
      · refine List.nodup_cons.mpr ⟨fun among => ?_, distinct⟩
        exact ((new _ _).mp ((keys _ _).mp among).1).2 ⟨rfl, rfl⟩
      · exact List.forall_mem_cons.mpr ⟨rfl, amounts⟩
      · intro other above
        rw [List.map_cons, List.mem_cons, keys, new, taught.covers_iff listed, ExpertToken.key,
          Prod.mk.injEq]
        constructor
        · rintro (⟨rfl, rfl⟩ | ⟨⟨unheld', _⟩, rfl, covers⟩)
          · exact ⟨unheld, rfl, .inl rfl⟩
          · exact ⟨unheld', rfl, .inr ⟨missing.1, covers⟩⟩
        · rintro ⟨unheld', rfl, covers⟩
          by_cases same : above = row.id
          · exact .inl ⟨rfl, same⟩
          · exact .inr ⟨⟨unheld', fun both => same both.2⟩, rfl, (covers.resolve_left same).2⟩
    · rw [if_neg missing]
      refine ⟨created, rfl, rfl, rfl, rfl, kept, [token], rfl, List.nodup_singleton _, by simp [token],
        fun other above => ?_⟩
      rw [List.map_singleton, List.mem_singleton, ExpertToken.key, Prod.mk.injEq]
      constructor
      · rintro ⟨rfl, rfl⟩
        exact ⟨unheld, rfl, .refl⟩
      · rintro ⟨new, rfl, covers⟩
        refine ⟨rfl, ?_⟩
        rcases (taught.covers_iff listed above).mp covers with same | ⟨parent, further⟩
        · exact same
        · -- The parent has a token, and so have those above it.
          have less := (taught.parents row listed).resolve_left parent
          rw [not_and, Bool.not_eq_false] at missing
          rcases (holds _ _).mp (missing parent) with before | ⟨_, same⟩
          · have all := closed.covers taught (Nat.le_of_lt less) further before
            rw [new] at all
            cases all.2
          · omega

end Tokens

end DeipChain.Ledger
