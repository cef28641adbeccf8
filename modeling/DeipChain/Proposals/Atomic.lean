import DeipChain.Proposals.Review

/-!
# Executions as a whole

An execution applies all operations of its proposal and takes it out of the table, or it leaves
nothing behind but the reason of its failure. The table never lists a proposal again that has been
executed, so what it does is done once.
-/
namespace DeipChain.Proposals

open Outcome

variable {Payload Rest : Type} {evaluators : Evaluators Payload Rest}

/-- All or nothing. -/
def Atomic (evaluators : Evaluators Payload Rest) (database : Database Payload Rest)
    (proposal : Proposal Payload) : Result Payload Rest → Prop
  | .thrown error failed =>
    failed.store = database.store.modifyProposal proposal.id (Proposal.fail error)
  | .returned after =>
    ∃ depth done, (database.enter proposal).applyOperations evaluators
        (Database.pushProposal evaluators depth) proposal.proposedTransaction.operations =
          .returned done ∧
      after.store = { done.store.removeProposal proposal.id with
        executed := done.store.executed ++ [proposal.id] } ∧
      ∀ row ∈ after.store.proposals, row.id ≠ proposal.id
  | .undefined _ => False
  | .unfinished _ => False

theorem failProposal_atomic {entered failed : Database Payload Rest} {proposal : Proposal Payload}
    {error : ProposalError} (concludes : (entered.failProposal failed proposal error).Concludes
      (fun _ => True)) :
    Atomic evaluators entered proposal (entered.failProposal failed proposal error) := by
  dsimp only [Database.failProposal] at concludes ⊢
  split
  · rename_i lost
    rw [if_pos lost] at concludes
    exact concludes
  · rfl

/-- An execution that ends is one as a whole. -/
theorem pushProposal_atomic {depth : Nat} {database : Database Payload Rest}
    {proposal : Proposal Payload}
    (concludes : (Database.pushProposal evaluators depth database proposal).Concludes
      (fun _ => True))
    (sound : (Database.pushProposal evaluators depth database proposal).Ends Sound) :
    Atomic evaluators database proposal (Database.pushProposal evaluators depth database proposal) := by
  cases depth with
  | zero => exact failProposal_atomic concludes
  | succ depth =>
    rw [Database.pushProposal, Database.executeProposal] at concludes sound ⊢
    split
    · rename_i within
      rw [if_pos within] at concludes sound
      dsimp only at concludes sound ⊢
      cases result : (database.enter proposal).applyOperations evaluators
          (Database.pushProposal evaluators depth) proposal.proposedTransaction.operations with
      | returned done =>
        rw [result] at concludes sound
        dsimp only [Database.finishProposal] at concludes sound ⊢
        split
        · rename_i again
          rw [if_pos again] at concludes
          exact concludes
        · rename_i outside
          rw [if_neg outside] at sound
          refine ⟨depth, done, result, rfl, ?_⟩
          exact (sound.past proposal.id (List.mem_append_right _ List.mem_cons_self)).2
      | thrown error failed =>
        rw [result] at concludes
        exact failProposal_atomic concludes
      | undefined failed =>
        rw [result] at concludes
        exact concludes
      | unfinished failed =>
        rw [result] at concludes
        exact concludes
    · rename_i beyond
      rw [if_neg beyond] at concludes
      exact failProposal_atomic concludes

/-- A proposal that is about to be executed is in a sound table, and is not being executed. -/
def Event.Fit : Event Payload Rest → Prop
  | .operation _ _ _ _ _ _ => True
  | .execution proposal store executing =>
    proposal.id ∉ executing.map Proposal.id ∧
    ∀ database : Database Payload Rest, database.store = store → database.executing = executing →
      Sound database ∧ database.store.Lists proposal

/-- The record of a run whose operations leave the proposals that are being executed alone. -/
structure Recorded (evaluators : Evaluators Payload Rest) (database : Database Payload Rest) : Prop where
  sound : Sound database
  fit : (∀ event ∈ database.trace, event.Apart evaluators) → ∀ event ∈ database.trace, event.Fit

theorem Recorded.note {database : Database Payload Rest} (recorded : Recorded evaluators database)
    {behind : List (Operation Payload)} {operation : Operation Payload}
    {other : Database Payload Rest} (sound : Sound other)
    (same : other.trace = (database.note behind operation).trace) : Recorded evaluators other := by
  refine ⟨sound, ?_⟩
  rw [same]
  intro apart
  refine Table.forall_append_singleton (recorded.fit ?_) trivial
  exact fun event listed => apart event (List.mem_append_left _ listed)

theorem recorded_lasting (evaluators : Evaluators Payload Rest) :
    Lasting evaluators (Recorded evaluators) (fun database proposal =>
      database.store.Lists proposal ∧ ((∀ event ∈ database.trace, event.Apart evaluators) →
        proposal.id ∉ database.executing.map Proposal.id)) where
  note behind operation database recorded :=
    recorded.note ((sound_carried evaluators).note behind operation database recorded.sound) rfl
  settle behind operation database store recorded settled :=
    recorded.note (settled.sound recorded.sound) rfl
  update behind update proposal database recorded checked unreviewed triggers := by
    obtain ⟨sound, fit⟩ := (sound_carried evaluators).update behind update proposal database
      recorded.sound checked unreviewed triggers
    refine ⟨recorded.note sound rfl, fit, ?_⟩
    intro apart
    have alone := apart (database.event behind (.updateProposal update))
      (List.mem_append_right _ List.mem_cons_self)
    have outside := recorded.sound.not_again alone triggers checked
    exact outside
  swallow id error database recorded :=
    ⟨(sound_carried evaluators).swallow id error database recorded.sound, recorded.fit⟩
  enter proposal database recorded fits := by
    refine ⟨(sound_carried evaluators).enter proposal database recorded.sound fits.1, ?_⟩
    intro apart
    have before : ∀ event ∈ database.trace, event.Apart evaluators :=
      fun event listed => apart event (List.mem_append_left _ listed)
    refine Table.forall_append_singleton (recorded.fit before) ⟨fits.2 before, ?_⟩
    intro other store executing
    refine ⟨recorded.sound.same ?_ ?_ ?_ executing, store ▸ fits.1⟩
    · rw [store]
    · rw [store]
    · rw [store]
  fail proposal error database failed recorded fits still :=
    ⟨(sound_carried evaluators).fail proposal error database failed recorded.sound fits.1 still.sound,
      still.fit⟩
  finish proposal database done recorded fits still nested outside :=
    ⟨(sound_carried evaluators).finish proposal database done recorded.sound fits.1 still.sound nested
      outside, still.fit⟩
  due proposal database recorded idle first due := by
    refine ⟨(sound_lasting evaluators).due proposal database recorded.sound idle first due, ?_⟩
    rw [idle]
    exact fun _ => List.not_mem_nil
  remove id current database recorded idle :=
    ⟨(sound_lasting evaluators).remove id current database recorded.sound idle, recorded.fit⟩
  refer reference database recorded :=
    ⟨(sound_lasting evaluators).refer reference database recorded.sound, recorded.fit⟩
  advance block database recorded idle later :=
    ⟨(sound_lasting evaluators).advance block database recorded.sound idle later, recorded.fit⟩
  rest rest database recorded :=
    ⟨(sound_lasting evaluators).rest rest database recorded.sound, recorded.fit⟩
  recover database failed recorded still nested :=
    ⟨(sound_lasting evaluators).recover database failed recorded.sound still.sound nested, still.fit⟩

/-- Over every chain whose operations leave the proposals that are being executed alone, every
execution is one as a whole, and no proposal is executed twice. -/
theorem chain_atomic {time : Nat} {recentEntities : List RecentEntity}
    {entities : List (EntityKind × String)} {rest : Rest} {proposals : List (GenesisProposal Payload)}
    {start : Database Payload Rest} (blocks : List (Block Payload))
    (pending : List (Transaction Payload))
    (began : genesis evaluators time recentEntities entities rest proposals = .ok start)
    (quiet : ∀ event ∈ (chain evaluators start blocks pending).state.trace,
      event.Apart evaluators) :
    (∀ proposal store executing,
      .execution proposal store executing ∈ (chain evaluators start blocks pending).state.trace →
      ∀ (database : Database Payload Rest) depth, database.store = store →
        database.executing = executing →
        (∀ event ∈ (Database.pushProposal evaluators depth database proposal).state.trace,
          event.Apart evaluators) →
        Atomic evaluators database proposal
          (Database.pushProposal evaluators depth database proposal)) ∧
    ∀ final, chain evaluators start blocks pending = .returned final →
      final.store.executed.Nodup ∧
      ∀ proposal ∈ final.store.proposals, proposal.id ∉ final.store.executed := by
  obtain ⟨sound, alone, -, -⟩ := genesis_sound began
  have calm : Calm start := ⟨sound, by rw [alone]; rfl⟩
  have begun : Recorded evaluators start := by
    refine ⟨sound, ?_⟩
    rw [alone]
    exact fun _ _ member => absurd member List.not_mem_nil
  have recorded := (recorded_lasting evaluators).chained blocks pending begun calm.idle
  have concludes := chain_concludes calm blocks pending quiet
  have ended := concludes.and recorded
  constructor
  · intro proposal store executing listed database depth here inside rest
    have fit : Event.Fit (.execution proposal store executing) := by
      cases result : chain evaluators start blocks pending with
      | returned final =>
        rw [result] at ended quiet listed
        exact ended.2.fit quiet _ listed
      | thrown error failed =>
        rw [result] at ended quiet listed
        exact ended.2.fit quiet _ listed
      | undefined failed =>
        rw [result] at ended
        exact ended.elim
      | unfinished failed =>
        rw [result] at ended
        exact ended.elim
    obtain ⟨soundHere, lists⟩ := fit.2 database here inside
    have outside : proposal.id ∉ database.executing.map Proposal.id := inside ▸ fit.1
    have steady := pushProposal_steady evaluators depth
    exact pushProposal_atomic
      ((steady.concludes database proposal soundHere lists outside rest).mono (fun _ _ => trivial))
      (steady.sound database proposal soundHere lists)
  · intro final result
    rw [result] at ended
    have last := ended.2.sound
    exact ⟨last.once, fun proposal member executed => (last.past proposal.id executed).2 proposal member rfl⟩

namespace Sample

/-- The execution of the first proposal neither returns nor throws. -/
theorem deleting_not_atomic :
    ∃ start proposal, genesis council 0 [] [] () deleting = .ok start ∧
      start.store.findProposal "first" = some proposal ∧
      ¬Atomic council start proposal (Database.pushProposal council maxNesting start proposal) := by
  obtain ⟨start, began, works⟩ := Result.exists_ok_of_any (genesis council 0 [] [] () deleting)
    (fun start => (start.store.findProposal "first").any (fun proposal =>
      (Database.pushProposal council maxNesting start proposal).isUndefined)) (by decide +kernel)
  obtain ⟨proposal, found, lost⟩ := (Option.any_eq_true _ _).mp works
  obtain ⟨failed, ended⟩ := exists_undefined lost
  refine ⟨start, proposal, began, found, ?_⟩
  rw [ended]
  exact id

/-- The first proposal executes the second when it expires, and both are taken out. -/
theorem nested_atomic :
    ∃ start final, genesis council 0 [] [] () nested = .ok start ∧
      chain council start [empty] [] = .returned final ∧ final.store.executed = [1, 0] ∧
      final.store.executed.Nodup ∧
      ∀ proposal ∈ final.store.proposals, proposal.id ∉ final.store.executed := by
  obtain ⟨start, began, works⟩ := Result.exists_ok_of_any (genesis council 0 [] [] () nested)
    (fun start => (chain council start [empty] []).returnsWith (fun final =>
      final.store.executed == [1, 0] &&
        final.trace.all (fun event => decide (event.Apart council))))
    (by decide +kernel)
  obtain ⟨final, ran, tested⟩ := exists_returned works
  rw [Bool.and_eq_true, List.all_eq_true] at tested
  obtain ⟨-, whole⟩ := chain_atomic [empty] [] began (by
    rw [ran]
    exact fun event listed => of_decide_eq_true (tested.2 event listed))
  exact ⟨start, final, began, ran, eq_of_beq tested.1, whole final ran⟩

end Sample

end DeipChain.Proposals
