import DeipChain.Proposals.Expiry
import DeipChain.Proposals.Context

/-!
# Review periods

A proposal with a review period is executed when it expires and not before, and from the start of the
review on its approvals can be taken back only. With what is known of the sweep this is the life
of a proposal over every chain.
-/
namespace DeipChain.Proposals

open Outcome

variable {Payload Rest : Type} {evaluators : Evaluators Payload Rest}

/-- A proposal with a review period is executed when it has expired. -/
def Event.Timely : Event Payload Rest → Prop
  | .operation _ _ _ _ _ _ => True
  | .execution proposal store _ =>
    proposal.reviewPeriodTime.isSome → proposal.expirationTime ≤ store.headBlockTime

theorem timely_lasting (evaluators : Evaluators Payload Rest) :
    Lasting evaluators (fun database => ∀ event ∈ database.trace, event.Timely)
      (fun database proposal => proposal.reviewPeriodTime.isSome →
        proposal.expirationTime ≤ database.store.headBlockTime) where
  note _ _ _ timely := Table.forall_append_singleton timely trivial
  settle _ _ _ _ timely _ := Table.forall_append_singleton timely trivial
  update _ update proposal _ timely _ unreviewed _ := by
    refine ⟨Table.forall_append_singleton timely trivial, ?_⟩
    intro reviewed
    have none : (proposal.updated update).reviewPeriodTime = none := unreviewed
    rw [none] at reviewed
    cases reviewed
  swallow _ _ _ timely := timely
  enter _ _ timely fit := Table.forall_append_singleton timely fit
  fail _ _ _ _ _ _ timely := timely
  finish _ _ _ _ _ timely _ _ := timely
  due _ _ _ _ _ due _ := due
  remove _ _ _ timely _ := timely
  refer _ _ timely := timely
  advance _ _ timely _ _ := timely
  rest _ _ timely := timely
  recover _ _ _ timely _ := timely

/-- The approvals of one proposal are among those of another. -/
structure Fewer (proposal other : Proposal Payload) : Prop where
  active : proposal.availableActiveApprovals ⊆ other.availableActiveApprovals
  owner : proposal.availableOwnerApprovals ⊆ other.availableOwnerApprovals
  key : proposal.availableKeyApprovals ⊆ other.availableKeyApprovals

/-- What was in review in one store has gained no approval in another. -/
def Closes (before after : Store Payload Rest) : Prop :=
  ∀ proposal ∈ before.proposals, ∀ time ∈ proposal.reviewPeriodTime, time ≤ before.headBlockTime →
    ∀ row ∈ after.proposals, row.id = proposal.id → Fewer row proposal

/-- The proposals that are in review in a store, later. -/
structure Reviewed (before after : Store Payload Rest) : Prop where
  head : before.headBlockTime ≤ after.headBlockTime
  next : before.nextProposal ≤ after.nextProposal
  rows : ∀ proposal ∈ before.proposals, ∀ time ∈ proposal.reviewPeriodTime,
    time ≤ before.headBlockTime → ∀ row ∈ after.proposals, row.id = proposal.id →
      row.reviewPeriodTime = some time ∧ Fewer row proposal

section Reviewed

variable {before after : Store Payload Rest}

theorem Reviewed.closes (reviewed : Reviewed before after) : Closes before after :=
  fun proposal member time review reached row listed same =>
    (reviewed.rows proposal member time review reached row listed same).2

/-- The approvals do not grow where no proposal in review gains any. -/
theorem Reviewed.modify (reviewed : Reviewed before after) (id : Nat)
    (change : Proposal Payload → Proposal Payload)
    (sameId : ∀ row, (change row).id = row.id)
    (sameReview : ∀ row, (change row).reviewPeriodTime = row.reviewPeriodTime)
    (fewer : ∀ row, after.proposals.find? (fun proposal => proposal.id == id) = some row →
      (∃ time ∈ row.reviewPeriodTime, time ≤ after.headBlockTime) → Fewer (change row) row) :
    Reviewed before (after.modifyProposal id change) := by
  refine ⟨reviewed.head, reviewed.next, ?_⟩
  intro proposal member time review reached
  refine Table.forall_modifyFirst (reviewed.rows proposal member time review reached) ?_
  intro row found kept same
  obtain ⟨closed, less⟩ := kept ((sameId row).symm.trans same)
  have more := fewer row found ⟨time, closed, reached.trans reviewed.head⟩
  exact ⟨(sameReview row).trans closed, more.active.trans less.active, more.owner.trans less.owner,
    more.key.trans less.key⟩

theorem Reviewed.remove (reviewed : Reviewed before after) (id : Nat) :
    Reviewed before (after.removeProposal id) :=
  ⟨reviewed.head, reviewed.next, fun proposal member time review reached row listed =>
    reviewed.rows proposal member time review reached row (List.mem_of_mem_eraseP listed)⟩

theorem Fewer.refl (proposal : Proposal Payload) : Fewer proposal proposal :=
  ⟨Finset.Subset.refl _, Finset.Subset.refl _, Finset.Subset.refl _⟩

theorem Reviewed.fail (reviewed : Reviewed before after) (id : Nat) (error : ProposalError) :
    Reviewed before (after.modifyProposal id (Proposal.fail error)) := by
  refine reviewed.modify id (Proposal.fail error) (fun _ => rfl) (fun _ => rfl) ?_
  exact fun row _ _ => ⟨Finset.Subset.refl _, Finset.Subset.refl _, Finset.Subset.refl _⟩

/-- An update that is let through adds nothing to a proposal in review. -/
theorem approve_fewer {store : Store Payload Rest} {update : ProposalUpdate}
    {proposal : Proposal Payload} (checked : store.checkUpdate update = .ok proposal)
    (closed : ∃ time ∈ proposal.reviewPeriodTime, time ≤ store.headBlockTime) :
    Fewer (proposal.approve update) proposal := by
  obtain ⟨-, -, reviewed⟩ := checkUpdate_ok checked
  obtain ⟨time, review, reached⟩ := closed
  obtain ⟨owner, active, key⟩ := reviewed time review reached
  constructor
  · rw [Proposal.approve, active, Finset.union_empty]
    exact Finset.sdiff_subset
  · rw [Proposal.approve, owner, Finset.union_empty]
    exact Finset.sdiff_subset
  · rw [Proposal.approve, key, Finset.union_empty]
    exact Finset.sdiff_subset

theorem Reviewed.approve (reviewed : Reviewed before after)
    (ids : (after.proposals.map Proposal.id).Nodup) {update : ProposalUpdate}
    {proposal : Proposal Payload} (checked : after.checkUpdate update = .ok proposal) :
    Reviewed before (after.modifyProposal proposal.id (Proposal.approve update)) := by
  refine reviewed.modify proposal.id (Proposal.approve update) (fun _ => rfl) (fun _ => rfl) ?_
  intro row found closed
  rw [Table.find?_of_nodup ids (checkUpdate_ok checked).1] at found
  cases found
  exact approve_fewer checked closed

theorem Settled.reviewed {database : Database Payload Rest} {operation : Operation Payload}
    {store : Store Payload Rest} (bounded : ∀ proposal ∈ before.proposals,
      proposal.id < before.nextProposal) (ids : (database.store.proposals.map Proposal.id).Nodup)
    (reviewed : Reviewed before database.store)
    (settled : Settled evaluators database operation store) : Reviewed before store := by
  cases settled with
  | created ran =>
    obtain ⟨-, -, -, created, fresh, -, -, rfl⟩ := createProposal_ok ran
    refine ⟨reviewed.head, Nat.le_succ_of_le reviewed.next, ?_⟩
    intro proposal member time review reached
    refine Table.forall_append_singleton (reviewed.rows proposal member time review reached) ?_
    intro same
    have old := bounded proposal member
    have next := reviewed.next
    rw [← same, fresh.id] at old
    exact absurd (old.trans_le next) (Nat.lt_irrefl _)
  | updated checked => exact reviewed.approve ids checked
  | @deleted _ _ _ proposal checked idle => exact reviewed.remove proposal.id
  | entity ran =>
    obtain ⟨-, -, rest, rfl⟩ := createEntity_ok ran
    exact ⟨reviewed.head, reviewed.next, reviewed.rows⟩
  | other rest => exact ⟨reviewed.head, reviewed.next, reviewed.rows⟩

theorem reviewed_lasting (evaluators : Evaluators Payload Rest)
    (bounded : ∀ proposal ∈ before.proposals, proposal.id < before.nextProposal) :
    Lasting evaluators (fun database => Sound database ∧ Reviewed before database.store)
      (fun database proposal => database.store.Lists proposal) where
  note behind operation database both :=
    ⟨(sound_carried evaluators).note behind operation database both.1, both.2⟩
  settle behind operation database store both settled :=
    ⟨settled.sound both.1, settled.reviewed bounded both.1.ids both.2⟩
  update behind update proposal database both checked unreviewed triggers := by
    obtain ⟨sound, fit⟩ := (sound_carried evaluators).update behind update proposal database both.1
      checked unreviewed triggers
    exact ⟨⟨sound, both.2.approve both.1.ids checked⟩, fit⟩
  swallow id error database both :=
    ⟨(sound_carried evaluators).swallow id error database both.1, both.2.fail id error⟩
  enter proposal database both listed :=
    ⟨(sound_carried evaluators).enter proposal database both.1 listed, both.2⟩
  fail proposal error database failed both listed still :=
    ⟨(sound_carried evaluators).fail proposal error database failed both.1 listed still.1,
      both.2.fail proposal.id error⟩
  finish proposal database done both listed still nested outside := by
    refine ⟨(sound_carried evaluators).finish proposal database done both.1 listed still.1 nested
      outside, ?_⟩
    have gone := still.2.remove proposal.id
    exact ⟨gone.head, gone.next, gone.rows⟩
  due proposal database both idle first due :=
    (sound_lasting evaluators).due proposal database both.1 idle first due
  remove id current database both idle :=
    ⟨(sound_lasting evaluators).remove id current database both.1 idle, both.2.remove id⟩
  refer reference database both :=
    ⟨(sound_lasting evaluators).refer reference database both.1, both.2⟩
  advance block database both idle later :=
    ⟨(sound_lasting evaluators).advance block database both.1 idle later,
      both.2.head.trans later.le, both.2.next, both.2.rows⟩
  rest rest database both :=
    ⟨(sound_lasting evaluators).rest rest database both.1, both.2.head, both.2.next, both.2.rows⟩
  recover database failed both still nested :=
    ⟨(sound_lasting evaluators).recover database failed both.1 still.1 nested, both.2⟩

end Reviewed

/-- A proposal is in review as it is itself. -/
theorem Reviewed.refl {database : Database Payload Rest} (sound : Sound database) :
    Reviewed database.store database.store := by
  refine ⟨le_rfl, le_rfl, ?_⟩
  intro proposal member time review reached row listed same
  have one : row = proposal := List.inj_on_of_nodup_map sound.ids listed member same
  subst one
  exact ⟨review, Fewer.refl row⟩

/-- The approvals of a proposal do not grow from the start of its review on. -/
theorem chain_closes (evaluators : Evaluators Payload Rest) {database : Database Payload Rest} (calm : Calm database)
    (blocks : List (Block Payload)) (pending : List (Transaction Payload)) :
    (chain evaluators database blocks pending).Ends
      (fun final => Closes database.store final.store) :=
  ((reviewed_lasting evaluators calm.sound.bounded).chained blocks pending
    ⟨calm.sound, Reviewed.refl calm.sound⟩ calm.idle).mono (fun _ both => both.2.closes)

theorem initGenesisProposal_lapsed {store next : Store Payload Rest} {genesis : GenesisProposal Payload}
    (lapsed : store.Lapsed ∅) (ran : store.initGenesisProposal evaluators genesis = .ok next) :
    next.Lapsed ∅ := by
  simp only [Store.initGenesisProposal, Result.bind_ok_iff, Result.require_ok_iff,
    Result.pure_ok_iff] at ran
  obtain ⟨_, later, created, made, rfl⟩ := ran
  obtain ⟨proposal, fresh, -, -, rfl⟩ := Store.createProposal_ok made
  refine Store.Lapsed.modify ?_ _ _ (fun _ => rfl) (fun _ => rfl)
  refine Table.forall_append_singleton lapsed ?_
  intro due
  rw [fresh.expirationTime] at due
  exact absurd due (Nat.not_le.mpr later)

theorem genesis_lapsed {time : Nat} {recentEntities : List RecentEntity}
    {entities : List (EntityKind × String)} {rest : Rest} {proposals : List (GenesisProposal Payload)}
    {start : Database Payload Rest}
    (began : genesis evaluators time recentEntities entities rest proposals = .ok start) :
    start.store.Lapsed ∅ := by
  simp only [genesis, Result.bind_ok_iff, Result.pure_ok_iff] at began
  obtain ⟨store, filled, rfl⟩ := began
  refine Result.foldlM_invariant (fun _ reached => reached.Lapsed ∅) ?_ ?_ filled
  · exact fun genesis _ reached next lapsed stepped => initGenesisProposal_lapsed lapsed stepped
  · exact fun _ member => absurd member List.not_mem_nil

/-- Over every chain whose operations leave the proposals that are being executed alone: reviewed
proposals are executed when they have expired, no expired proposal is left after a
block, and approvals do not grow in review. The sweep ends for every table of proposals. -/
theorem chain_expires {time : Nat} {recentEntities : List RecentEntity}
    {entities : List (EntityKind × String)} {rest : Rest} {proposals : List (GenesisProposal Payload)}
    {start : Database Payload Rest} (blocks : List (Block Payload))
    (pending : List (Transaction Payload))
    (began : genesis evaluators time recentEntities entities rest proposals = .ok start)
    (quiet : ∀ event ∈ (chain evaluators start blocks pending).state.trace,
      event.Apart evaluators) :
    ((∃ final, chain evaluators start blocks pending = .returned final) ∨
      ∃ error failed, chain evaluators start blocks pending = .thrown error failed) ∧
    (∀ event ∈ (chain evaluators start blocks pending).state.trace, event.Timely) ∧
    (∀ final, chain evaluators start blocks pending = .returned final →
      (∀ proposal ∈ final.store.proposals, final.store.headBlockTime < proposal.expirationTime) ∧
      ∀ more later last, chain evaluators final more later = .returned last →
        Closes final.store last.store) ∧
    ∀ (database : Database Payload Rest) rounds, Sound database → database.executing = [] →
      database.store.proposals.length < rounds →
      (∀ event ∈ (database.clearExpiredProposals evaluators rounds).state.trace,
        event.Apart evaluators) →
      ∃ done, database.clearExpiredProposals evaluators rounds = .returned done ∧
        ∀ proposal ∈ done.store.proposals, done.store.headBlockTime < proposal.expirationTime := by
  obtain ⟨sound, alone, -, -⟩ := genesis_sound began
  have calm : Calm start := ⟨sound, by rw [alone]; rfl⟩
  have concludes := chain_concludes calm blocks pending quiet
  have unexpired : ∀ store : Store Payload Rest, store.Lapsed ∅ →
      ∀ proposal ∈ store.proposals, store.headBlockTime < proposal.expirationTime := by
    intro store lapsed proposal member
    by_contra due
    exact absurd (lapsed proposal member (Nat.not_lt.mp due)) (Finset.notMem_empty _)
  refine ⟨?_, ?_, ?_, ?_⟩
  · cases result : chain evaluators start blocks pending with
    | returned final => exact Or.inl ⟨final, rfl⟩
    | thrown error failed => exact Or.inr ⟨error, failed, rfl⟩
    | undefined failed =>
      rw [result] at concludes
      exact concludes.elim
    | unfinished failed =>
      rw [result] at concludes
      exact concludes.elim
  · have nothing : ∀ event ∈ start.trace, event.Timely := by
      rw [alone]
      exact fun _ member => absurd member List.not_mem_nil
    have timely := (timely_lasting evaluators).chained blocks pending nothing calm.idle
    cases result : chain evaluators start blocks pending with
    | returned final =>
      rw [result] at timely
      exact timely
    | thrown error failed =>
      rw [result] at timely
      exact timely
    | undefined failed =>
      rw [result] at concludes
      exact concludes.elim
    | unfinished failed =>
      rw [result] at concludes
      exact concludes.elim
  · intro final result
    constructor
    · have none := chain_lapsed calm (genesis_lapsed began) blocks pending quiet
      rw [result] at none
      exact unexpired final.store none
    · intro more later last ended
      rw [result] at concludes
      have closes := chain_closes evaluators concludes more later
      rw [ended] at closes
      exact closes
  · intro database rounds soundHere idle enough rest
    obtain ⟨lapsed, few⟩ := lapsed_all database.store
    obtain ⟨done, ended, -, none⟩ := clearExpiredProposals_returns rounds ⟨soundHere, idle⟩ lapsed
      (by omega) rest
    exact ⟨done, ended, unexpired done.store none⟩

namespace Sample

/-- The first one approves the second, which deletes the first. -/
def deleting : List (GenesisProposal Unit) :=
  [proposal "first" {"alice"} [approval "second"],
   proposal "second" ∅ [.deleteProposal "first" "alice" 2]]

/-- A block after all of them have expired. -/
def empty : Block Unit := { timestamp := 12, idPrefix := 1, transactions := [] }

/-- The sweep goes on with a proposal that is no longer there. -/
theorem deleting_undefined :
    ∃ start final, genesis council 0 [] [] () deleting = .ok start ∧
      chain council start [empty] [] = .undefined final ∧
      ¬∃ done, (Database.clearExpiredProposals council 3
          { start with store := start.store.advance council empty }) = .returned done := by
  obtain ⟨start, began, works⟩ := Result.exists_ok_of_any (genesis council 0 [] [] () deleting)
    (fun start => (chain council start [empty] []).isUndefined &&
      (Database.clearExpiredProposals council 3
        { start with store := start.store.advance council empty }).isUndefined) (by decide +kernel)
  rw [Bool.and_eq_true] at works
  obtain ⟨final, ended⟩ := exists_undefined works.1
  obtain ⟨failed, swept⟩ := exists_undefined works.2
  refine ⟨start, final, began, ended, ?_⟩
  rintro ⟨done, returned⟩
  cases swept.symm.trans returned

theorem expiry_expires :
    ∃ start final, genesis council 0 [] [] () nested = .ok start ∧
      chain council start [empty] [] = .returned final ∧ final.trace.length = 5 ∧
      (∀ event ∈ final.trace, event.Timely) ∧
      ∀ proposal ∈ final.store.proposals, final.store.headBlockTime < proposal.expirationTime := by
  obtain ⟨start, began, works⟩ := Result.exists_ok_of_any (genesis council 0 [] [] () nested)
    (fun start => (chain council start [empty] []).returnsWith (fun final =>
      final.trace.length == 5 && final.trace.all (fun event => decide (event.Apart council))))
    (by decide +kernel)
  obtain ⟨final, ran, tested⟩ := exists_returned works
  rw [Bool.and_eq_true, List.all_eq_true] at tested
  obtain ⟨-, timely, states, -⟩ := chain_expires [empty] [] began (by
      rw [ran]
      exact fun event listed => of_decide_eq_true (tested.2 event listed))
  rw [ran] at timely
  exact ⟨start, final, began, ran, by simpa using tested.1, timely, (states final ran).1⟩

end Sample

end DeipChain.Proposals
