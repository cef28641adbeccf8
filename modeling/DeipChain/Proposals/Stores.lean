import DeipChain.Proposals.Execution

/-!
# What becomes of the object store

The evaluators read forwards: what a new proposal and a new entity look like and what was
checked before they were created. Then what holds of the proposals in every store: their ids
are different and below the next one, those that were executed are gone, and
those that are being executed are there.
-/
namespace DeipChain.Proposals

open Result Outcome

variable {Payload Rest : Type} {evaluators : Evaluators Payload Rest}

section Evaluators

variable {database : Database Payload Rest} {store : Store Payload Rest} {externalId creator : String}
  {proposedOps : List (Operation Payload)} {expirationTime : Nat} {reviewPeriodSeconds : Option Nat}
  {kind : EntityKind} {payload : Payload}

theorem duplicatedEntityGuard_ok {operation : Operation Payload} {result : Unit}
    (passed : store.duplicatedEntityGuard operation = .ok result) :
    ∀ id ∈ operation.entityIds, store.entityExists id = false := by
  rw [Store.duplicatedEntityGuard, forM_ok_iff] at passed
  exact fun id member => require_ok_iff.mp (passed id member)

theorem createRecentEntity_ok {reference : RefBlock} {created : Store Payload Rest}
    (ran : store.createRecentEntity externalId reference = .ok created) :
    store.entityExists externalId = false ∧ created = { store with
      recentEntities := store.recentEntities ++
        [{ externalId := externalId, reference := reference, createdAt := store.headBlockTime }] } := by
  simp only [Store.createRecentEntity, bind_ok_iff, require_ok_iff, pure_ok_iff] at ran
  obtain ⟨_, fresh, rfl⟩ := ran
  exact ⟨fresh, rfl⟩

/-- A proposal as `create_proposal` leaves it. -/
structure Fresh (store : Store Payload Rest) (externalId : String) (trx : Transaction Payload)
    (expirationTime : Nat) (proposal : Proposal Payload) : Prop where
  id : proposal.id = store.nextProposal
  externalId : proposal.externalId = externalId
  expirationTime : proposal.expirationTime = expirationTime
  proposedTransaction : proposal.proposedTransaction = trx

theorem Store.createProposal_ok {trx : Transaction Payload} {requiredOwner requiredActive : Finset String}
    {reference : RefBlock} {created : Store Payload Rest}
    (ran : store.createProposal externalId trx expirationTime creator reviewPeriodSeconds
      requiredOwner requiredActive reference = .ok created) :
    ∃ proposal, Fresh store externalId trx expirationTime proposal ∧
      store.findProposal externalId = none ∧ store.entityExists externalId = false ∧
      created = { store with
        nextProposal := store.nextProposal + 1
        proposals := store.proposals ++ [proposal]
        recentEntities := store.recentEntities ++
          [{ externalId := externalId, reference := reference, createdAt := store.headBlockTime }] } := by
  simp only [Store.createProposal, bind_ok_iff, require_ok_iff, Option.isNone_iff_eq_none] at ran
  obtain ⟨_, -, _, unnamed, recorded⟩ := ran
  obtain ⟨unknown, rfl⟩ := createRecentEntity_ok recorded
  exact ⟨_, ⟨rfl, rfl, rfl, rfl⟩, unnamed, unknown, rfl⟩

/-- `create_proposal_evaluator`, when it returns. -/
theorem createProposal_ok
    (ran : database.createProposal evaluators externalId creator proposedOps expirationTime
      reviewPeriodSeconds = .ok store) :
    (∀ id ∈ externalId :: entityIdsOf proposedOps, database.store.entityExists id = false) ∧
    database.store.headBlockTime < expirationTime ∧
    expirationTime ≤ database.store.headBlockTime + maxProposalLifetimeSec ∧
    ∃ proposal, Fresh database.store externalId
        { reference := database.reference, expiration := expirationTime, operations := proposedOps }
        expirationTime proposal ∧
      database.store.findProposal externalId = none ∧
      Transaction.validate evaluators.toProtocol
        { reference := database.reference, expiration := expirationTime, operations := proposedOps } =
          .ok ⟨⟩ ∧
      store = { database.store with
        nextProposal := database.store.nextProposal + 1
        proposals := database.store.proposals ++ [proposal]
        recentEntities := database.store.recentEntities ++
          [{ externalId := externalId
             reference := database.reference
             createdAt := database.store.headBlockTime }]
        effects := database.store.effects ++ [externalId] } := by
  simp only [Database.createProposal, bind_ok_iff, require_ok_iff, pure_ok_iff] at ran
  obtain ⟨_, guarded, _, later, _, soon, _, -, _, -, _, valid, created, made, rfl⟩ := ran
  obtain ⟨proposal, fresh, unnamed, -, rfl⟩ := Store.createProposal_ok made
  exact ⟨duplicatedEntityGuard_ok guarded, later, soon, proposal, fresh, unnamed, valid, rfl⟩

/-- The evaluators of the other entities, when they return. -/
theorem createEntity_ok
    (ran : database.createEntity evaluators kind externalId payload = .ok store) :
    database.store.entityExists externalId = false ∧
    (kind.table, externalId) ∉ database.store.entities ∧
    ∃ rest, store = { database.store with
      rest := rest
      entities := database.store.entities ++ [(kind.table, externalId)]
      recentEntities := if kind.recorded then database.store.recentEntities ++
        [{ externalId := externalId
           reference := database.reference
           createdAt := database.store.headBlockTime }] else database.store.recentEntities
      effects := database.store.effects ++ [externalId] } := by
  simp only [Database.createEntity, bind_ok_iff, require_ok_iff] at ran
  obtain ⟨_, guarded, rest, -, _, fresh, made⟩ := ran
  have unknown := duplicatedEntityGuard_ok guarded externalId List.mem_cons_self
  refine ⟨unknown, fresh, rest, ?_⟩
  by_cases recorded : kind.recorded = true
  · rw [if_pos recorded] at made ⊢
    exact (createRecentEntity_ok made).2
  · rw [if_neg recorded, pure_ok_iff] at made
    rw [if_neg recorded]
    exact made.symm

theorem checkUpdate_ok {update : ProposalUpdate} {proposal : Proposal Payload}
    (checked : store.checkUpdate update = .ok proposal) :
    proposal ∈ store.proposals ∧ proposal.externalId = update.externalId ∧
      ∀ time ∈ proposal.reviewPeriodTime, time ≤ store.headBlockTime →
        update.ownerApprovalsToAdd = ∅ ∧ update.activeApprovalsToAdd = ∅ ∧
          update.keyApprovalsToAdd = ∅ := by
  simp only [Store.checkUpdate, bind_ok_iff, expect_ok_iff, require_ok_iff, pure_ok_iff] at checked
  obtain ⟨found, listed, _, reviewed, _, -, _, -, _, -, _, -, rfl⟩ := checked
  exact ⟨List.mem_of_find?_eq_some listed, by simpa using List.find?_some listed, reviewed⟩

theorem checkDelete_ok {account : String} {authority : Nat} {proposal : Proposal Payload}
    (checked : store.checkDelete externalId account authority = .ok proposal) :
    proposal ∈ store.proposals ∧ proposal.externalId = externalId := by
  simp only [Store.checkDelete, bind_ok_iff, expect_ok_iff, pure_ok_iff] at checked
  obtain ⟨found, listed, _, -, rfl⟩ := checked
  exact ⟨List.mem_of_find?_eq_some listed, by simpa using List.find?_some listed⟩

end Evaluators

/-- The operations of a block run at the time of the head below it. -/
theorem Settled.time {database : Database Payload Rest} {operation : Operation Payload}
    {store : Store Payload Rest} (settled : Settled evaluators database operation store) :
    store.headBlockTime = database.store.headBlockTime := by
  cases settled with
  | created ran =>
    obtain ⟨-, -, -, proposal, -, -, -, rfl⟩ := createProposal_ok ran
    rfl
  | updated => rfl
  | deleted => rfl
  | entity ran =>
    obtain ⟨-, -, rest, rfl⟩ := createEntity_ok ran
    rfl
  | other => rfl

theorem time_carried (evaluators : Evaluators Payload Rest) (time : Nat) :
    Carried evaluators (fun database => database.store.headBlockTime = time) (fun _ _ => True) where
  note _ _ _ here := here
  settle _ _ _ _ here settled := settled.time.trans here
  update _ _ _ _ here _ _ _ := ⟨here, trivial⟩
  swallow _ _ _ here := here
  enter _ _ here _ := here
  fail _ _ _ _ here _ _ := here
  finish _ _ _ _ _ here _ _ := here

/-!
## The table of proposals
-/

/-- A proposal is in the table, if perhaps changed. -/
def Store.Lists (store : Store Payload Rest) (proposal : Proposal Payload) : Prop :=
  ∃ row ∈ store.proposals, row.id = proposal.id ∧ row.externalId = proposal.externalId

/-- The proposals of a database. -/
structure Sound (database : Database Payload Rest) : Prop where
  ids : (database.store.proposals.map Proposal.id).Nodup
  names : (database.store.proposals.map Proposal.externalId).Nodup
  bounded : ∀ proposal ∈ database.store.proposals, proposal.id < database.store.nextProposal
  past : ∀ id ∈ database.store.executed,
    id < database.store.nextProposal ∧ ∀ proposal ∈ database.store.proposals, proposal.id ≠ id
  once : database.store.executed.Nodup
  held : ∀ proposal ∈ database.executing, database.store.Lists proposal

section Sound

variable {database : Database Payload Rest} {store : Store Payload Rest}

/-- A change of other objects only. -/
theorem Sound.same {other : Database Payload Rest} (sound : Sound database)
    (proposals : other.store.proposals = database.store.proposals)
    (next : other.store.nextProposal = database.store.nextProposal)
    (executed : other.store.executed = database.store.executed)
    (executing : other.executing = database.executing) : Sound other where
  ids := proposals ▸ sound.ids
  names := proposals ▸ sound.names
  bounded := proposals ▸ next ▸ sound.bounded
  past := proposals ▸ next ▸ executed ▸ sound.past
  once := executed ▸ sound.once
  held := by
    rw [executing]
    rintro proposal member
    rw [Store.Lists, proposals]
    exact sound.held proposal member

/-- A change of a proposal that keeps its names. -/
theorem modifyProposal_lists (id : Nat) (change : Proposal Payload → Proposal Payload)
    (sameId : ∀ proposal, (change proposal).id = proposal.id)
    (sameName : ∀ proposal, (change proposal).externalId = proposal.externalId)
    {proposal : Proposal Payload} (listed : store.Lists proposal) :
    (store.modifyProposal id change).Lists proposal := by
  obtain ⟨row, member, ids, names⟩ := listed
  have columns : (store.modifyProposal id change).proposals.map (fun row => (row.id, row.externalId)) =
      store.proposals.map (fun row => (row.id, row.externalId)) := by
    apply Table.map_modifyFirst
    exact fun row => Prod.ext (sameId row) (sameName row)
  have among : (row.id, row.externalId) ∈
      (store.modifyProposal id change).proposals.map (fun row => (row.id, row.externalId)) := by
    rw [columns]
    exact List.mem_map_of_mem member
  obtain ⟨changed, kept, same⟩ := List.mem_map.mp among
  rw [Prod.mk.injEq] at same
  exact ⟨changed, kept, same.1.trans ids, same.2.trans names⟩

theorem Sound.modify (sound : Sound database) (id : Nat)
    (change : Proposal Payload → Proposal Payload)
    (sameId : ∀ proposal, (change proposal).id = proposal.id)
    (sameName : ∀ proposal, (change proposal).externalId = proposal.externalId) :
    Sound { database with store := database.store.modifyProposal id change } where
  ids := Table.nodup_modifyFirst sameId sound.ids
  names := Table.nodup_modifyFirst sameName sound.names
  bounded := by
    refine Table.forall_modifyFirst sound.bounded ?_
    intro row _ below
    exact (sameId row).symm ▸ below
  past := by
    intro other member
    obtain ⟨below, gone⟩ := sound.past other member
    refine ⟨below, Table.forall_modifyFirst gone ?_⟩
    intro row _ differs
    exact (sameId row).symm ▸ differs
  once := sound.once
  held := fun proposal member => modifyProposal_lists id change sameId sameName (sound.held proposal member)

theorem removeProposal_lists {id : Nat} {proposal : Proposal Payload}
    (ids : (store.proposals.map Proposal.id).Nodup) (listed : store.Lists proposal)
    (other : proposal.id ≠ id) : (store.removeProposal id).Lists proposal := by
  obtain ⟨row, member, same, name⟩ := listed
  exact ⟨row, (Table.mem_eraseP_iff ids).mpr ⟨member, same ▸ other⟩, same, name⟩

theorem Sound.remove (sound : Sound database) {id : Nat}
    (idle : id ∉ database.executing.map Proposal.id) :
    Sound { database with store := database.store.removeProposal id } where
  ids := Table.nodup_eraseP sound.ids
  names := Table.nodup_eraseP sound.names
  bounded := fun proposal member => sound.bounded proposal (List.mem_of_mem_eraseP member)
  past := by
    intro other member
    obtain ⟨below, gone⟩ := sound.past other member
    exact ⟨below, fun proposal listed => gone proposal (List.mem_of_mem_eraseP listed)⟩
  once := sound.once
  held := by
    intro proposal member
    refine removeProposal_lists sound.ids (sound.held proposal member) ?_
    rintro rfl
    exact idle (List.mem_map_of_mem member)

theorem findProposal_none {externalId : String} (none : store.findProposal externalId = none) :
    ∀ proposal ∈ store.proposals, proposal.externalId ≠ externalId := by
  intro proposal member
  simpa using List.find?_eq_none.mp none proposal member

theorem Sound.create (sound : Sound database) {externalId : String} {trx : Transaction Payload}
    {expirationTime : Nat} {proposal : Proposal Payload}
    (fresh : Fresh database.store externalId trx expirationTime proposal)
    (unnamed : database.store.findProposal externalId = none) {other : Database Payload Rest}
    (proposals : other.store.proposals = database.store.proposals ++ [proposal])
    (next : other.store.nextProposal = database.store.nextProposal + 1)
    (executed : other.store.executed = database.store.executed)
    (executing : other.executing = database.executing) : Sound other where
  ids := by
    rw [proposals]
    refine Table.nodup_append_fresh sound.ids ?_
    intro row member same
    have below := sound.bounded row member
    have first := fresh.id
    omega
  names := by
    rw [proposals]
    refine Table.nodup_append_fresh sound.names ?_
    rw [fresh.externalId]
    exact findProposal_none unnamed
  bounded := by
    rw [proposals, next]
    refine Table.forall_append_singleton ?_ ?_
    · exact fun row member => Nat.lt_succ_of_lt (sound.bounded row member)
    · rw [fresh.id]
      exact Nat.lt_succ_self _
  past := by
    rw [proposals, next, executed]
    intro id member
    obtain ⟨below, gone⟩ := sound.past id member
    refine ⟨Nat.lt_succ_of_lt below, Table.forall_append_singleton gone ?_⟩
    rw [fresh.id]
    exact below.ne'
  once := executed ▸ sound.once
  held := by
    rw [executing]
    intro row member
    obtain ⟨found, listed, same⟩ := sound.held row member
    exact ⟨found, by rw [proposals]; exact List.mem_append_left _ listed, same⟩

theorem Settled.sound {behind : List (Operation Payload)} {operation : Operation Payload}
    (sound : Sound database) (settled : Settled evaluators database operation store) :
    Sound { database.note behind operation with store := store } := by
  cases settled with
  | created ran =>
    obtain ⟨-, -, -, proposal, fresh, unnamed, -, rfl⟩ := createProposal_ok ran
    exact sound.create fresh unnamed rfl rfl rfl rfl
  | @updated update proposal checked =>
    exact (sound.modify proposal.id (Proposal.approve update) (fun _ => rfl) (fun _ => rfl)).same
      rfl rfl rfl rfl
  | deleted checked idle => exact (sound.remove idle).same rfl rfl rfl rfl
  | entity ran =>
    obtain ⟨-, -, rest, rfl⟩ := createEntity_ok ran
    exact sound.same rfl rfl rfl rfl
  | other rest => exact sound.same rfl rfl rfl rfl

/-- An execution that went through takes its proposal out of the table for good. -/
theorem Sound.finish {done : Database Payload Rest} {proposal : Proposal Payload}
    (sound : Sound done) (nested : done.executing = proposal :: database.executing)
    (outside : proposal.id ∉ database.executing.map Proposal.id) :
    Sound { done with
      store := { done.store.removeProposal proposal.id with
        executed := done.store.executed ++ [proposal.id] }
      currentProposedTrx := none
      executing := database.executing } := by
  obtain ⟨row, listed, same, -⟩ := sound.held proposal (nested ▸ List.mem_cons_self)
  refine ⟨Table.nodup_eraseP sound.ids, Table.nodup_eraseP sound.names, ?_, ?_, ?_, ?_⟩
  · exact fun other member => sound.bounded other (List.mem_of_mem_eraseP member)
  · refine Table.forall_append_singleton ?_ ?_
    · intro id member
      obtain ⟨below, gone⟩ := sound.past id member
      exact ⟨below, fun other listed => gone other (List.mem_of_mem_eraseP listed)⟩
    · refine ⟨same ▸ sound.bounded row listed, ?_⟩
      exact fun other member => ((Table.mem_eraseP_iff sound.ids).mp member).2
  · refine List.nodup_append.mpr ⟨sound.once, List.nodup_singleton _, ?_⟩
    intro id member other last equal
    rw [List.mem_singleton.mp last] at equal
    exact (sound.past id member).2 row listed (same.trans equal.symm)
  · intro other member
    refine removeProposal_lists sound.ids (sound.held other ?_) ?_
    · rw [nested]
      exact List.mem_cons_of_mem proposal member
    · intro equal
      exact outside (equal ▸ List.mem_map_of_mem member)

/-- Every execution keeps the proposals sound. -/
theorem sound_carried (evaluators : Evaluators Payload Rest) :
    Carried evaluators Sound (fun database proposal => database.store.Lists proposal) where
  note _ _ _ sound := sound.same rfl rfl rfl rfl
  settle _ _ _ _ sound settled := settled.sound sound
  update behind update proposal database sound checked _ _ := by
    refine ⟨(sound.modify proposal.id (Proposal.approve update) (fun _ => rfl)
      (fun _ => rfl)).same rfl rfl rfl rfl, ?_⟩
    obtain ⟨listed, -, -⟩ := checkUpdate_ok checked
    exact modifyProposal_lists proposal.id (Proposal.approve update) (fun _ => rfl) (fun _ => rfl)
      ⟨proposal, listed, rfl, rfl⟩
  swallow id error _ sound :=
    (sound.modify id (Proposal.fail error) (fun _ => rfl) (fun _ => rfl)).same rfl rfl rfl rfl
  enter proposal database sound listed := by
    refine ⟨sound.ids, sound.names, sound.bounded, sound.past, sound.once, ?_⟩
    intro other member
    rcases List.mem_cons.mp member with rfl | below
    · exact listed
    · exact sound.held other below
  fail proposal error _ _ sound _ _ :=
    (sound.modify proposal.id (Proposal.fail error) (fun _ => rfl) (fun _ => rfl)).same
      rfl rfl rfl rfl
  finish _ _ _ _ _ sound nested outside := sound.finish nested outside

end Sound

end DeipChain.Proposals
