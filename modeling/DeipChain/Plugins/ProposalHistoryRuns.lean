import DeipChain.Plugins.ProposalObjects
import DeipChain.Proposals.Context

/-!
# Runs of the history of proposals

In a run in which no update adds an approval, the objects mirror the proposals. A removal is heard of
before or after it is made, and no later event is about the proposal that was removed. An execution
that fails goes back to objects that mirrored the proposals when it began.
-/
namespace DeipChain.ProposalHistory

open Proposals Result Table

variable {Payload Rest : Type} {evaluators : Evaluators Payload Rest}

/-! ## Executions -/

/-- What a failure puts back. -/
structure Execution.Kept (execution : Execution Payload Rest) : Prop where
  sound : Sound execution.before
  tracks : Tracks execution.before.store.proposals execution.history execution.removed
  listed : execution.before.store.Lists execution.proposal
  quiet : ∀ update ∈ execution.cause,
    AddsNothing update ∧ update.externalId = execution.proposal.externalId
  idle : execution.cause = none → execution.before.executing = []

/-- The executions belong to the proposals that the chain is at. -/
inductive Framed : List (Proposal Payload) → List (Execution Payload Rest) → Prop where
  | idle : Framed [] []
  | nested {execution : Execution Payload Rest} {running : List (Execution Payload Rest)} :
      execution.Kept → Framed execution.before.executing running →
      Framed (execution.proposal :: execution.before.executing) (execution :: running)

/-- A node whose objects agree with its proposals, and which goes back to such nodes only. -/
structure Consistent (node : Node Payload Rest) : Prop where
  sound : Sound node.database
  tracks : Tracks node.database.store.proposals node.history node.removed
  framed : Framed node.database.executing node.running
  saved : ∀ moment ∈ node.saved,
    Sound moment.store.alone ∧ Tracks moment.store.proposals moment.history moment.removed
  defined : node.lost = false

/-- No handler is lost, and a node that is returned is consistent. -/
structure Kept (outcome : Step Payload Rest) : Prop where
  defined : outcome.state.lost = false
  returned : outcome.Ensures Consistent

theorem Consistent.kept {node : Node Payload Rest} (consistent : Consistent node) :
    Kept (.returned node : Step Payload Rest) := ⟨consistent.defined, consistent⟩

theorem Kept.andThen {outcome : Step Payload Rest} {next : Node Payload Rest → Step Payload Rest}
    (kept : Kept outcome) (after : ∀ node, Consistent node → Kept (next node)) :
    Kept (outcome.andThen next) := by
  cases outcome with
  | returned node => exact after node kept.returned
  | thrown => exact ⟨kept.defined, trivial⟩
  | undefined => exact ⟨kept.defined, trivial⟩
  | unfinished => exact ⟨kept.defined, trivial⟩

theorem Framed.empty {running : List (Execution Payload Rest)}
    (framed : Framed ([] : List (Proposal Payload)) running) : running = [] := by
  cases framed
  rfl

theorem Framed.none {executing : List (Proposal Payload)}
    (framed : Framed executing ([] : List (Execution Payload Rest))) : executing = [] := by
  cases framed
  rfl

theorem hears_returned {node : Node Payload Rest} {handler : History Payload → Handled Payload}
    {changed : History Payload} (heard : handler node.history = .returned changed) :
    node.hears handler = .returned { node with history := changed } := by
  rw [Node.hears, heard]

section Executions

variable {node : Node Payload Rest} {execution : Execution Payload Rest}
  {running : List (Execution Payload Rest)} {proposal : Proposal Payload} {update : ProposalUpdate}

theorem lists_named {store : Store Payload Rest} (listed : store.Lists proposal) :
    proposal.externalId ∈ store.proposals.map Proposal.externalId := by
  obtain ⟨row, member, -, same⟩ := listed
  exact List.mem_map.mpr ⟨row, member, same⟩

/-- The handler of an update that adds nothing. -/
theorem Consistent.updated (consistent : Consistent node) (nothing : AddsNothing update)
    (known : ∃ state ∈ node.history, state.externalId = update.externalId) :
    Kept (node.updated update) := by
  obtain ⟨changed, heard, tracks⟩ := consistent.tracks.updateProposal nothing node.txInfo known
  rw [Node.updated, hears_returned heard]
  exact Consistent.kept
    { sound := consistent.sound
      tracks := tracks
      framed := consistent.framed
      saved := consistent.saved
      defined := consistent.defined }

/-- A proposal that is not being executed is removed, after its object got the status. -/
theorem Consistent.remove (consistent : Consistent node) (listed : node.database.store.Lists proposal)
    (outside : proposal.id ∉ node.database.executing.map Proposal.id) (how : Removal)
    (status : ∃ state ∈ node.history, state.externalId = proposal.externalId ∧
      state.status = how.status) (current : Option (Transaction Payload)) :
    Consistent { node with
      database := { node.database with
        currentProposedTrx := current
        store := node.database.store.removeProposal proposal.id }
      removed := (proposal.externalId, how) :: node.removed } where
  sound := (consistent.sound.remove outside).same rfl rfl rfl rfl
  tracks := consistent.tracks.removeProposal consistent.sound.ids consistent.sound.names listed how status
  framed := consistent.framed
  saved := consistent.saved
  defined := consistent.defined

/-- A status is heard of while the proposal is there. -/
theorem Consistent.mark (consistent : Consistent node)
    (listed : proposal.externalId ∈ node.database.store.proposals.map Proposal.externalId)
    (status : ProposalStatus) (reason : Option ProposalError) :
    ∃ changed, node.hears (statusChanged proposal.externalId status reason) =
        .returned { node with history := changed } ∧ Consistent { node with history := changed } ∧
      ∃ state ∈ changed, state.externalId = proposal.externalId ∧ state.status = status := by
  obtain ⟨changed, heard, tracks, marked⟩ := consistent.tracks.statusChanged listed status reason
  refine ⟨changed, hears_returned heard, ?_, marked⟩
  exact
    { sound := consistent.sound
      tracks := tracks
      framed := consistent.framed
      saved := consistent.saved
      defined := consistent.defined }

/-- A failed execution is reported, once by `push_proposal` and once more after an update. -/
theorem Consistent.failed (consistent : Consistent node) (listed : node.database.store.Lists proposal)
    (error : ProposalError) {cause : Option ProposalUpdate}
    (quiet : ∀ update ∈ cause, AddsNothing update ∧ update.externalId = proposal.externalId)
    (idle : cause = none → node.database.executing = []) : Kept (node.failed proposal error cause) := by
  obtain ⟨changed, heard, marked, status⟩ := consistent.mark (lists_named listed) .failed (some error)
  rw [Node.failed, heard, Outcome.andThen_returned]
  cases cause with
  | none =>
    refine (marked.remove listed ?_ .failedAtExpiry status none).kept
    rw [idle rfl]
    exact List.not_mem_nil
  | some update =>
    obtain ⟨nothing, own⟩ := quiet update rfl
    have modified : Consistent { node with
        history := changed
        database := { node.database with
          currentProposedTrx := none
          store := node.database.store.modifyProposal proposal.id (Proposal.fail error) } } :=
      { sound := (marked.sound.modify proposal.id (Proposal.fail error) (fun _ => rfl)
          (fun _ => rfl)).same rfl rfl rfl rfl
        tracks := marked.tracks.modifyProposal proposal.id (Proposal.fail error) (fun _ => rfl)
          (fun _ => rfl) (fun _ => rfl) (fun _ none => none)
        framed := marked.framed
        saved := marked.saved
        defined := marked.defined }
    obtain ⟨again, heardAgain, still, other, there, named, -⟩ := modified.mark
      (lists_named (modifyProposal_lists proposal.id (Proposal.fail error) (fun _ => rfl) (fun _ => rfl)
        listed)) .failed (some error)
    simp only [heardAgain, Outcome.andThen_returned]
    exact still.updated nothing ⟨other, there, named.trans own.symm⟩

/-- A failure goes back to what was there before the execution. -/
theorem Execution.Kept.fail (kept : execution.Kept) (framed : Framed execution.before.executing running)
    (saved : ∀ moment ∈ node.saved,
      Sound moment.store.alone ∧ Tracks moment.store.proposals moment.history moment.removed)
    (defined : node.lost = false) (error : ProposalError) :
    ProposalHistory.Kept (node.failExecution execution running error) := by
  have back : Consistent { node with
      database := { node.database with
        store := execution.before.store.modifyProposal execution.proposal.id (Proposal.fail error)
        currentProposedTrx := none
        executing := execution.before.executing }
      history := execution.history
      removed := execution.removed
      running } :=
    { sound := (kept.sound.modify execution.proposal.id (Proposal.fail error) (fun _ => rfl)
        (fun _ => rfl)).same rfl rfl rfl rfl
      tracks := kept.tracks.modifyProposal execution.proposal.id (Proposal.fail error) (fun _ => rfl)
        (fun _ => rfl) (fun _ => rfl) (fun _ none => none)
      framed := framed
      saved := saved
      defined := defined }
  rw [Node.failExecution, Database.failProposal]
  by_cases touched : ((execution.before.executing.map Proposal.id).any
      (execution.before.store.touched node.database.store)) = true
  · simp only [if_pos touched]
    exact ⟨defined, trivial⟩
  · simp only [if_neg touched]
    refine back.failed ?_ error kept.quiet kept.idle
    exact modifyProposal_lists execution.proposal.id (Proposal.fail error) (fun _ => rfl)
      (fun _ => rfl) kept.listed

/-- The start of an execution. -/
theorem Consistent.execute (consistent : Consistent node) (listed : node.database.store.Lists proposal)
    {cause : Option ProposalUpdate}
    (quiet : ∀ update ∈ cause, AddsNothing update ∧ update.externalId = proposal.externalId)
    (idle : cause = none → node.database.executing = []) :
    Kept (node.execute evaluators proposal cause) := by
  have kept : Execution.Kept
      ⟨proposal, node.database, node.history, node.removed, cause⟩ :=
    ⟨consistent.sound, consistent.tracks, listed, quiet, idle⟩
  simp only [Node.execute]
  split
  · refine Consistent.kept ⟨?_, consistent.tracks, .nested kept consistent.framed, consistent.saved,
      consistent.defined⟩
    exact (sound_carried evaluators).enter proposal node.database consistent.sound listed
  · exact kept.fail consistent.framed consistent.saved consistent.defined .nestingDepth

/-- The end of an execution that went through. -/
theorem Consistent.finish (consistent : Consistent node) (nested : node.running = execution :: running) :
    Kept (node.finishExecution execution running) := by
  obtain ⟨same, kept, framed⟩ : node.database.executing =
      execution.proposal :: execution.before.executing ∧ execution.Kept ∧
      Framed execution.before.executing running := by
    have framed := consistent.framed
    rw [nested] at framed
    generalize node.database.executing = executing at framed ⊢
    cases framed with
    | nested kept outer => exact ⟨rfl, kept, outer⟩
  have listed : node.database.store.Lists execution.proposal :=
    consistent.sound.held _ (same ▸ List.mem_cons_self)
  obtain ⟨changed, heard, tracks, status⟩ :=
    consistent.tracks.statusChanged (lists_named listed) .approved none
  rw [Node.finishExecution, Database.finishProposal]
  by_cases again : execution.proposal.id ∈ execution.before.executing.map Proposal.id
  · simp only [if_pos again]
    exact ⟨consistent.defined, trivial⟩
  · simp only [if_neg again]
    rw [hears_returned (by exact heard), Outcome.andThen_returned]
    have left : Consistent { node with
        database := { node.database with
          store := { node.database.store.removeProposal execution.proposal.id with
            executed := node.database.store.executed ++ [execution.proposal.id] }
          currentProposedTrx := none
          executing := execution.before.executing }
        history := changed
        removed := (execution.proposal.externalId, .executed) :: node.removed
        running } :=
      { sound := consistent.sound.finish same again
        tracks := tracks.removeProposal consistent.sound.ids consistent.sound.names listed .executed status
        framed := framed
        saved := consistent.saved
        defined := consistent.defined }
    cases cause : execution.cause with
    | none => exact left.kept
    | some update =>
      obtain ⟨nothing, own⟩ := kept.quiet update cause
      obtain ⟨state, there, named, -⟩ := status
      exact left.updated nothing ⟨state, there, named.trans own.symm⟩

end Executions

/-! ## Operations -/

/-- `create_proposal` gives no approvals. -/
theorem createProposal_unapproved {store created : Store Payload Rest} {externalId creator : String}
    {trx : Transaction Payload} {expirationTime : Nat} {reviewPeriodSeconds : Option Nat}
    {requiredOwner requiredActive : Finset String} {reference : RefBlock}
    (ran : store.createProposal externalId trx expirationTime creator reviewPeriodSeconds requiredOwner
      requiredActive reference = .ok created) :
    ∀ proposal ∈ created.proposals, proposal ∈ store.proposals ∨
      proposal.availableActiveApprovals = ∅ ∧ proposal.availableOwnerApprovals = ∅ ∧
        proposal.requiredActiveApprovals = requiredActive ∧
        proposal.requiredOwnerApprovals = requiredOwner := by
  simp only [Store.createProposal, bind_ok_iff, require_ok_iff] at ran
  obtain ⟨_, -, _, -, recorded⟩ := ran
  obtain ⟨-, rfl⟩ := createRecentEntity_ok recorded
  exact forall_append_singleton (fun _ member => .inl member) (.inr ⟨rfl, rfl, rfl, rfl⟩)

/-- The proposal that `create_proposal_evaluator` adds. -/
theorem created_unapproved {database : Database Payload Rest} {store : Store Payload Rest}
    {externalId creator : String} {proposedOps : List (Operation Payload)} {expirationTime : Nat}
    {reviewPeriodSeconds : Option Nat}
    (ran : database.createProposal evaluators externalId creator proposedOps expirationTime
      reviewPeriodSeconds = .ok store) :
    ∀ proposal ∈ store.proposals, proposal ∈ database.store.proposals ∨
      proposal.availableActiveApprovals = ∅ ∧ proposal.availableOwnerApprovals = ∅ := by
  simp only [Database.createProposal, bind_ok_iff, require_ok_iff, pure_ok_iff] at ran
  obtain ⟨_, -, _, -, _, -, _, -, _, -, _, -, created, made, rfl⟩ := ran
  exact fun proposal member => (createProposal_unapproved made proposal member).imp_right
    fun fields => ⟨fields.1, fields.2.1⟩

/-- The event adds no approval, and takes no id of a removed proposal. What an evaluator refuses may do
both. -/
def Happening.Quiet (evaluators : Evaluators Payload Rest) (node : Node Payload Rest) :
    Happening Payload Rest → Prop
  | .operation (.updateProposal update) =>
    ∀ proposal, node.database.store.checkUpdate update = .ok proposal → AddsNothing update
  | .operation (.createProposal externalId creator proposedOps expirationTime reviewPeriodSeconds) =>
    ∀ store, node.database.createProposal evaluators externalId creator proposedOps expirationTime
      reviewPeriodSeconds = .ok store → externalId ∉ node.removed.map Prod.fst
  | _ => True

section Operations

variable {node : Node Payload Rest}

/-- The evaluators that change other objects only. -/
theorem Consistent.settle (consistent : Consistent node)
    {result : Except ProposalError (Store Payload Rest)}
    (same : ∀ store, result = .ok store → store.proposals = node.database.store.proposals ∧
      store.nextProposal = node.database.store.nextProposal ∧
      store.executed = node.database.store.executed) : Kept (node.settle result) := by
  cases result with
  | error => exact consistent.kept
  | ok store =>
    obtain ⟨proposals, next, executed⟩ := same store rfl
    exact Consistent.kept
      { sound := consistent.sound.same proposals next executed rfl
        tracks := proposals ▸ consistent.tracks
        framed := consistent.framed
        saved := consistent.saved
        defined := consistent.defined }

theorem Consistent.create (consistent : Consistent node) {store : Store Payload Rest}
    {externalId creator : String} {proposedOps : List (Operation Payload)} {expirationTime : Nat}
    {reviewPeriodSeconds : Option Nat}
    (ran : node.database.createProposal evaluators externalId creator proposedOps expirationTime
      reviewPeriodSeconds = .ok store) (unused : externalId ∉ node.removed.map Prod.fst) :
    Kept (Node.hears { node with database := { node.database with store } }
      (createProposal store externalId)) := by
  have rows := created_unapproved ran
  obtain ⟨-, -, -, proposal, fresh, unnamed, -, rfl⟩ := createProposal_ok ran
  have others := findProposal_none unnamed
  have unapproved := (rows proposal (List.mem_append_right _ (List.mem_singleton_self _))).resolve_left
    fun old => others proposal old fresh.externalId
  have blank : (stateOf proposal).Blank := ⟨fun _ => rfl, rfl, rfl, rfl⟩
  obtain ⟨made, tracks⟩ := consistent.tracks.create unapproved
    (fun row member => fresh.externalId ▸ others row member) (fresh.externalId ▸ unused) rfl blank rfl
  have found : (node.database.store.proposals ++ [proposal]).find?
      (fun row => row.externalId == externalId) = some proposal := by
    rw [List.find?_append, show node.database.store.proposals.find? _ = none from unnamed]
    simp [fresh.externalId]
  have heard : createProposal { node.database.store with
      nextProposal := node.database.store.nextProposal + 1
      proposals := node.database.store.proposals ++ [proposal]
      recentEntities := node.database.store.recentEntities ++
        [{ externalId := externalId
           reference := node.database.reference
           createdAt := node.database.store.headBlockTime }]
      effects := node.database.store.effects ++ [externalId] } externalId node.history =
      .returned (node.history ++ [stateOf proposal]) := by
    simp only [createProposal, Store.findProposal, found, made]
  rw [hears_returned (by exact heard)]
  exact Consistent.kept
    { sound := consistent.sound.create fresh unnamed rfl rfl rfl rfl
      tracks := tracks
      framed := consistent.framed
      saved := consistent.saved
      defined := consistent.defined }

theorem Consistent.delete (consistent : Consistent node) (externalId account : String) (authority : Nat) :
    Kept (node.apply evaluators (.deleteProposal externalId account authority)) := by
  simp only [Node.apply, Database.deleteProposal]
  cases checked : node.database.store.checkDelete externalId account authority with
  | error => exact consistent.kept
  | ok proposal =>
    obtain ⟨member, rfl⟩ := checkDelete_ok checked
    have listed : node.database.store.Lists proposal := ⟨proposal, member, rfl, rfl⟩
    by_cases executing : proposal.id ∈ node.database.executing.map Proposal.id
    · simp only [if_pos executing]
      exact ⟨consistent.defined, trivial⟩
    · simp only [if_neg executing]
      obtain ⟨changed, heard, tracks, status⟩ :=
        consistent.tracks.deleteProposal (lists_named listed) account node.txInfo
      rw [hears_returned (by exact heard)]
      have marked : Consistent { node with history := changed } :=
        { sound := consistent.sound
          tracks := tracks
          framed := consistent.framed
          saved := consistent.saved
          defined := consistent.defined }
      exact (marked.remove listed executing .deleted status node.database.currentProposedTrx).kept

theorem Consistent.update (consistent : Consistent node) {update : ProposalUpdate}
    (quiet : ∀ proposal, node.database.store.checkUpdate update = .ok proposal → AddsNothing update) :
    Kept (node.update evaluators update) := by
  rw [Node.update]
  cases checked : node.database.store.checkUpdate update with
  | error => exact consistent.kept
  | ok proposal =>
    have nothing := quiet proposal checked
    obtain ⟨member, own, -⟩ := checkUpdate_ok checked
    have listed : (node.database.store.modifyProposal proposal.id
        (Proposal.approve update)).Lists (proposal.updated update) :=
      modifyProposal_lists proposal.id (Proposal.approve update) (fun _ => rfl) (fun _ => rfl)
        ⟨proposal, member, rfl, rfl⟩
    have approved : Consistent { node with
        database := { node.database with
          store := node.database.store.modifyProposal proposal.id (Proposal.approve update) } } :=
      { sound := consistent.sound.modify proposal.id (Proposal.approve update) (fun _ => rfl)
          (fun _ => rfl)
        tracks := consistent.tracks.modifyProposal proposal.id (Proposal.approve update) (fun _ => rfl)
          (fun _ => rfl) (fun _ => rfl)
          (fun row none => by simp [Proposal.approve, none.1, none.2, nothing.active, nothing.owner])
        framed := consistent.framed
        saved := consistent.saved
        defined := consistent.defined }
    have known := approved.tracks.known (lists_named listed)
    rw [show (proposal.updated update).externalId = update.externalId from own] at known
    simp only
    split
    · exact approved.updated nothing known
    · split
      · refine approved.execute listed ?_ (by simp)
        rintro _ ⟨⟩
        exact ⟨nothing, own.symm⟩
      · exact approved.updated nothing known

theorem Consistent.apply (consistent : Consistent node) (operation : Operation Payload)
    (quiet : Happening.Quiet evaluators node (.operation operation)) :
    Kept (node.apply evaluators operation) := by
  cases operation with
  | createProposal externalId creator proposedOps expirationTime reviewPeriodSeconds =>
    simp only [Node.apply]
    split
    · exact consistent.kept
    · rename_i store ran
      exact consistent.create ran (quiet store ran)
  | updateProposal update => exact consistent.update quiet
  | deleteProposal externalId account authority => exact consistent.delete externalId account authority
  | createEntity kind externalId payload =>
    refine consistent.settle ?_
    intro store ran
    obtain ⟨-, -, rest, rfl⟩ := createEntity_ok ran
    exact ⟨rfl, rfl, rfl⟩
  | other payload =>
    refine consistent.settle ?_
    intro store ran
    simp only [bind_ok_iff, pure_ok_iff] at ran
    obtain ⟨rest, -, rfl⟩ := ran
    exact ⟨rfl, rfl, rfl⟩

theorem Consistent.expire (consistent : Consistent node) : Kept (node.expire evaluators) := by
  rw [Node.expire]
  split
  · rename_i running first
    have idle : node.database.executing = [] := (running ▸ consistent.framed).none
    have listed : node.database.store.Lists _ := ⟨_, firstToExpire_mem first, rfl, rfl⟩
    split
    · split
      · exact consistent.execute listed (by simp) fun _ => idle
      · obtain ⟨changed, heard, marked, status⟩ :=
          consistent.mark (lists_named listed) .expired none
        rw [heard, Outcome.andThen_returned]
        refine (marked.remove listed ?_ .expired status node.database.currentProposedTrx).kept
        rw [idle]
        exact List.not_mem_nil
    · exact consistent.kept
  · exact consistent.kept

end Operations

/-! ## Runs -/

theorem Consistent.step {node : Node Payload Rest} (consistent : Consistent node)
    {happening : Happening Payload Rest} (quiet : happening.Quiet evaluators node) :
    Kept (node.step evaluators happening) := by
  cases happening with
  | operation operation => exact consistent.apply operation quiet
  | finish =>
    cases running : node.running with
    | nil =>
      simp only [Node.step, running]
      exact consistent.kept
    | cons execution outer =>
      simp only [Node.step, running]
      exact consistent.finish running
  | fail error =>
    have framed := consistent.framed
    cases running : node.running with
    | nil =>
      simp only [Node.step, running]
      exact consistent.kept
    | cons execution outer =>
      rw [running] at framed
      simp only [Node.step, running]
      generalize node.database.executing = executing at framed
      cases framed with
      | nested kept rest => exact kept.fail rest consistent.saved consistent.defined error
  | expire => exact consistent.expire
  | transaction reference =>
    exact Consistent.kept
      { sound := consistent.sound.same rfl rfl rfl rfl
        tracks := consistent.tracks
        framed := consistent.framed
        saved := consistent.saved
        defined := consistent.defined }
  | advance block =>
    exact Consistent.kept
      { sound := consistent.sound.same rfl rfl rfl rfl
        tracks := consistent.tracks
        framed := consistent.framed
        saved := consistent.saved
        defined := consistent.defined }
  | startSession =>
    exact Consistent.kept
      { sound := consistent.sound
        tracks := consistent.tracks
        framed := consistent.framed
        saved := List.forall_mem_cons.mpr ⟨⟨⟨consistent.sound.ids, consistent.sound.names,
          consistent.sound.bounded, consistent.sound.past, consistent.sound.once,
          fun _ member => absurd member List.not_mem_nil⟩, consistent.tracks⟩, consistent.saved⟩
        defined := consistent.defined }
  | undo =>
    have saved := consistent.saved
    cases moments : node.saved with
    | nil =>
      simp only [Node.step, moments]
      exact consistent.kept
    | cons moment earlier =>
      rw [moments] at saved
      obtain ⟨⟨sound, tracks⟩, behind⟩ := List.forall_mem_cons.mp saved
      simp only [Node.step, moments]
      exact Consistent.kept
        { sound := sound.same rfl rfl rfl rfl
          tracks := tracks
          framed := .idle
          saved := behind
          defined := consistent.defined }
  | squash =>
    exact Consistent.kept
      { sound := consistent.sound
        tracks := consistent.tracks
        framed := consistent.framed
        saved := fun moment member => consistent.saved moment (List.mem_of_mem_tail member)
        defined := consistent.defined }

/-- Every event of a run is quiet where it happens. -/
def QuietRun (evaluators : Evaluators Payload Rest) :
    Node Payload Rest → List (Happening Payload Rest) → Prop
  | _, [] => True
  | node, happening :: behind => happening.Quiet evaluators node ∧
      (node.step evaluators happening).Ensures fun next => QuietRun evaluators next behind

theorem QuietRun.of_prefix {node : Node Payload Rest} {ran happenings : List (Happening Payload Rest)}
    (quiet : QuietRun evaluators node happenings) (begins : ran <+: happenings) :
    QuietRun evaluators node ran := by
  induction ran generalizing node happenings with
  | nil => trivial
  | cons happening behind hypothesis =>
    obtain ⟨rest, rfl⟩ := begins
    obtain ⟨first, later⟩ := quiet
    exact ⟨first, later.mono fun _ still => hypothesis still (List.prefix_append behind rest)⟩

/-- A quiet run keeps the objects in agreement. -/
theorem Consistent.run {node : Node Payload Rest} (consistent : Consistent node)
    {happenings : List (Happening Payload Rest)} (quiet : QuietRun evaluators node happenings) :
    Kept (node.run evaluators happenings) := by
  induction happenings generalizing node with
  | nil => exact consistent.kept
  | cons happening behind hypothesis =>
    obtain ⟨first, later⟩ := quiet
    have kept := consistent.step first
    rw [Node.run, Outcome.each_cons]
    cases stepped : node.step evaluators happening with
    | returned next =>
      rw [stepped] at kept later
      exact hypothesis kept.returned later
    | thrown error next =>
      rw [stepped] at kept
      exact ⟨kept.defined, trivial⟩
    | undefined next =>
      rw [stepped] at kept
      exact ⟨kept.defined, trivial⟩
    | unfinished next =>
      rw [stepped] at kept
      exact ⟨kept.defined, trivial⟩

/-! ## The genesis -/

theorem proposalInitialized_spec (protocol : Protocol Payload) (genesisTime : Nat)
    (genesis : GenesisProposal Payload) (history : History Payload) :
    ∃ state, proposalInitialized protocol genesisTime genesis history = createState state history ∧
      state.externalId = genesis.externalId ∧ state.Blank ∧ state.requiredApprovals =
        requiredBy (Operation.requiredActive protocol) genesis.proposedTransaction.operations ∪
          requiredBy (Operation.requiredOwner protocol) genesis.proposedTransaction.operations :=
  ⟨_, rfl, rfl, ⟨fun _ => rfl, rfl, rfl, rfl⟩, rfl⟩

/-- A proposal of the genesis that has no approvals gets its object. -/
theorem Tracks.genesis {store next : Store Payload Rest} {history : History Payload}
    (tracks : Tracks store.proposals history []) {genesis : GenesisProposal Payload}
    (none : genesis.activeApprovals = ∅ ∧ genesis.ownerApprovals = ∅) (time : Nat)
    (ran : store.initGenesisProposal evaluators genesis = .ok next) :
    Tracks next.proposals (proposalInitialized evaluators.toProtocol time genesis history).state [] := by
  simp only [Store.initGenesisProposal, bind_ok_iff, pure_ok_iff] at ran
  obtain ⟨_, -, created, made, rfl⟩ := ran
  have rows := createProposal_unapproved made
  obtain ⟨proposal, fresh, unnamed, -, rfl⟩ := Store.createProposal_ok made
  have others := findProposal_none unnamed
  obtain ⟨active, owner, needsActive, needsOwner⟩ :=
    (rows proposal (List.mem_append_right _ (List.mem_singleton_self _))).resolve_left
      fun old => others proposal old fresh.externalId
  obtain ⟨state, heard, named, blank, required⟩ :=
    proposalInitialized_spec evaluators.toProtocol time genesis history
  obtain ⟨created, tracked⟩ := tracks.create ⟨active, owner⟩
    (fun row member => fresh.externalId ▸ others row member) List.not_mem_nil
    (named.trans fresh.externalId.symm) blank (by rw [required, needsActive, needsOwner])
  rw [heard, created]
  exact Tracks.modifyProposal (by exact tracked) store.nextProposal _ (fun _ => rfl) (fun _ => rfl)
    (fun _ => rfl) fun row unapproved => by
      simp [Proposal.approve, unapproved.1, unapproved.2, none.1, none.2]

theorem genesis_consistent {time : Nat} {recentEntities : List RecentEntity}
    {entities : List (EntityKind × String)} {rest : Rest} {proposals : List (GenesisProposal Payload)}
    {start : Node Payload Rest}
    (none : ∀ genesis ∈ proposals, genesis.activeApprovals = ∅ ∧ genesis.ownerApprovals = ∅)
    (began : genesis evaluators time recentEntities entities rest proposals = .ok start) :
    Consistent start := by
  simp only [genesis, bind_ok_iff, pure_ok_iff] at began
  obtain ⟨database, filled, rfl⟩ := began
  obtain ⟨sound, alone, -, -⟩ := genesis_sound filled
  have tracked : ∀ (given : List (GenesisProposal Payload)) (store final : Store Payload Rest)
      (history : History Payload), (∀ genesis ∈ given, genesis.activeApprovals = ∅ ∧
        genesis.ownerApprovals = ∅) → Tracks store.proposals history [] →
      given.foldlM (Store.initGenesisProposal evaluators) store = .ok final →
      Tracks final.proposals (given.foldl (fun history genesis =>
        (proposalInitialized evaluators.toProtocol time genesis history).state) history) [] := by
    intro given
    induction given with
    | nil =>
      intro store final history _ tracks ran
      simp only [List.foldlM_nil, pure_ok_iff] at ran
      exact ran ▸ tracks
    | cons genesis behind hypothesis =>
      intro store final history none tracks ran
      simp only [List.foldlM_cons, bind_ok_iff] at ran
      obtain ⟨next, made, later⟩ := ran
      obtain ⟨first, others⟩ := List.forall_mem_cons.mp none
      exact hypothesis next final _ others (tracks.genesis first time made) later
  refine ⟨sound, ?_, ?_, fun _ member => absurd member List.not_mem_nil, rfl⟩
  · simp only [Proposals.genesis, bind_ok_iff, pure_ok_iff] at filled
    obtain ⟨store, ran, rfl⟩ := filled
    refine tracked proposals _ store [] none ?_ ran
    exact ⟨by simp, List.nodup_nil, by simp, by simp, by simp, by simp, by simp⟩
  · rw [alone]
    exact .idle

namespace Sample

open Proposals.Sample

/-- A proposal that Alice has to approve, with a review period: an update does not execute it. -/
def reviewed (externalId : String) : GenesisProposal Unit :=
  { proposal externalId ∅ [.other ()] with reviewPeriodSeconds := some 1 }

/-- Whether an object has other active approvals than its proposal. -/
def unlike (node : Node Unit Unit) : Bool :=
  node.database.store.proposals.any fun proposal =>
    (findState proposal.externalId node.history).all fun state =>
      decide (state.activeApprovals ≠ proposal.availableActiveApprovals)

theorem not_mirrors_of_unlike {node : Node Unit Unit} (differs : unlike node = true) : ¬node.Mirrors := by
  rintro mirrors
  obtain ⟨proposal, member, all⟩ := List.any_eq_true.mp differs
  obtain ⟨state, found, mirrored⟩ := mirrors.mirrored proposal member
  rw [found] at all
  exact of_decide_eq_true all mirrored.active

/-- A proposal is deleted and another one expires. -/
def refusals : List (Happening Unit Unit) :=
  [.operation (.deleteProposal "first" "alice" 2),
   .advance { timestamp := 12, idPrefix := 1, transactions := [] }, .expire]

end Sample

end DeipChain.ProposalHistory
