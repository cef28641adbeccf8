import DeipChain.Proposals.Steady
import Mathlib.Data.Finset.Card

/-!
# The expiration of proposals

The sweep takes the first proposal to expire again and again. Each round takes one out, and what
an execution creates expires later, so the set of the proposals that have expired shrinks.
Proposals with a review period are executed here only, and their approvals do not grow once the
review has begun. The sweep ends, and leaves no expired proposal behind, if the executions leave
the proposals that are being executed alone.
-/
namespace DeipChain.Proposals

open Outcome

variable {Payload Rest : Type} {evaluators : Evaluators Payload Rest} {push : Push Payload Rest}

/-!
## Expired proposals
-/

/-- All proposals that have expired are among some. -/
def Store.Lapsed (ids : Finset Nat) (store : Store Payload Rest) : Prop :=
  ∀ proposal ∈ store.proposals, proposal.expirationTime ≤ store.headBlockTime → proposal.id ∈ ids

section Lapsed

variable {ids : Finset Nat} {store : Store Payload Rest}

theorem Store.Lapsed.modify (lapsed : store.Lapsed ids) (id : Nat)
    (change : Proposal Payload → Proposal Payload)
    (sameId : ∀ proposal, (change proposal).id = proposal.id)
    (sameTime : ∀ proposal, (change proposal).expirationTime = proposal.expirationTime) :
    (store.modifyProposal id change).Lapsed ids := by
  refine Table.forall_modifyFirst lapsed ?_
  intro row _ among due
  change (change row).id ∈ ids
  rw [sameId row]
  exact among (sameTime row ▸ due)

theorem Store.Lapsed.remove (lapsed : store.Lapsed ids) (id : Nat) :
    (store.removeProposal id).Lapsed ids :=
  fun proposal member due => lapsed proposal (List.mem_of_mem_eraseP member) due

/-- Without one of the proposals there is one less. -/
theorem Store.Lapsed.erase (lapsed : store.Lapsed ids) {id : Nat}
    (gone : ∀ proposal ∈ store.proposals, proposal.id ≠ id) : store.Lapsed (ids.erase id) :=
  fun proposal member due => Finset.mem_erase.mpr ⟨gone proposal member, lapsed proposal member due⟩

theorem Settled.lapsed {database : Database Payload Rest} {operation : Operation Payload}
    (lapsed : database.store.Lapsed ids) (settled : Settled evaluators database operation store) :
    store.Lapsed ids := by
  cases settled with
  | created ran =>
    obtain ⟨-, later, -, proposal, fresh, -, -, rfl⟩ := createProposal_ok ran
    refine Table.forall_append_singleton lapsed ?_
    intro due
    rw [fresh.expirationTime] at due
    exact absurd due (Nat.not_le.mpr later)
  | @updated update proposal checked =>
    exact lapsed.modify proposal.id (Proposal.approve update) (fun _ => rfl) (fun _ => rfl)
  | @deleted _ _ _ proposal checked idle => exact lapsed.remove proposal.id
  | entity ran =>
    obtain ⟨-, -, rest, rfl⟩ := createEntity_ok ran
    exact lapsed
  | other rest => exact lapsed

theorem lapsed_carried (evaluators : Evaluators Payload Rest) (ids : Finset Nat) :
    Carried evaluators (fun database => database.store.Lapsed ids) (fun _ _ => True) where
  note _ _ _ lapsed := lapsed
  settle _ _ _ _ lapsed settled := settled.lapsed lapsed
  update _ update proposal _ lapsed _ _ _ :=
    ⟨lapsed.modify proposal.id (Proposal.approve update) (fun _ => rfl) (fun _ => rfl), trivial⟩
  swallow id error _ lapsed :=
    lapsed.modify id (Proposal.fail error) (fun _ => rfl) (fun _ => rfl)
  enter _ _ lapsed _ := lapsed
  fail proposal error _ _ lapsed _ _ :=
    lapsed.modify proposal.id (Proposal.fail error) (fun _ => rfl) (fun _ => rfl)
  finish proposal _ _ _ _ lapsed _ _ := lapsed.remove proposal.id

theorem firstToExpire_least {proposal : Proposal Payload}
    (first : store.firstToExpire = some proposal) :
    ∀ other ∈ store.proposals, proposal.expirationTime ≤ other.expirationTime := by
  rw [Store.firstToExpire] at first
  intro other member
  have listed := (List.mem_insertionSort (fun one other : Proposal Payload =>
    one.expirationTime < other.expirationTime ∨
      one.expirationTime = other.expirationTime ∧ one.id ≤ other.id)).mpr member
  have total : Std.Total (fun one other : Proposal Payload =>
      one.expirationTime < other.expirationTime ∨
        one.expirationTime = other.expirationTime ∧ one.id ≤ other.id) :=
    ⟨fun one other => by omega⟩
  have transitive : IsTrans (Proposal Payload) (fun one other =>
      one.expirationTime < other.expirationTime ∨
        one.expirationTime = other.expirationTime ∧ one.id ≤ other.id) :=
    ⟨fun one other third before after => by omega⟩
  have sorted := List.pairwise_insertionSort (fun one other : Proposal Payload =>
    one.expirationTime < other.expirationTime ∨
      one.expirationTime = other.expirationTime ∧ one.id ≤ other.id) store.proposals
  cases order : store.proposals.insertionSort (fun one other : Proposal Payload =>
      one.expirationTime < other.expirationTime ∨
        one.expirationTime = other.expirationTime ∧ one.id ≤ other.id) with
  | nil =>
    rw [order] at listed
    exact absurd listed List.not_mem_nil
  | cons head behind =>
    rw [order] at first listed sorted
    cases first
    rcases List.mem_cons.mp listed with rfl | later
    · exact le_rfl
    · have ordered := List.rel_of_pairwise_cons sorted later
      omega

theorem firstToExpire_none (none : store.firstToExpire = none) : store.proposals = [] := by
  rw [Store.firstToExpire, List.head?_eq_none_iff] at none
  exact List.perm_nil.mp (none ▸ (List.perm_insertionSort _ store.proposals).symm)

end Lapsed

/-- An execution that returns has taken its proposal out. -/
theorem pushProposal_executed {depth : Nat} {database done : Database Payload Rest}
    {proposal : Proposal Payload}
    (ran : Database.pushProposal evaluators depth database proposal = .returned done) :
    proposal.id ∈ done.store.executed := by
  have failed : ∀ other error, database.failProposal other proposal error ≠ .returned done := by
    intro other error ended
    dsimp only [Database.failProposal] at ended
    split at ended <;> cases ended
  cases depth with
  | zero => exact absurd ran (failed _ _)
  | succ depth =>
    rw [Database.pushProposal, Database.executeProposal] at ran
    split at ran
    · dsimp only at ran
      split at ran
      · dsimp only [Database.finishProposal] at ran
        split at ran
        · cases ran
        · cases ran
          exact List.mem_append_right _ List.mem_cons_self
      · exact absurd ran (failed _ _)
      · cases ran
      · cases ran
    · exact absurd ran (failed _ _)

/-!
## The sweep
-/

/-- The database between calls. -/
structure Calm (database : Database Payload Rest) : Prop where
  sound : Sound database
  idle : database.executing = []

theorem Calm.removed {database : Database Payload Rest} (calm : Calm database) (id : Nat)
    (currentProposedTrx : Option (Transaction Payload)) :
    Calm { database with
      currentProposedTrx := currentProposedTrx
      store := database.store.removeProposal id } := by
  have outside : id ∉ database.executing.map Proposal.id := by
    rw [calm.idle]
    exact List.not_mem_nil
  exact ⟨(calm.sound.remove outside).same rfl rfl rfl rfl, calm.idle⟩

/-- The sweep ends after at most as many rounds as there are expired proposals, and leaves
none of them. -/
theorem clearExpiredProposals_returns (rounds : Nat) {ids : Finset Nat}
    {database : Database Payload Rest} (calm : Calm database) (lapsed : database.store.Lapsed ids)
    (enough : ids.card < rounds)
    (quiet : Quiet evaluators (database.clearExpiredProposals evaluators rounds)) :
    ∃ done, database.clearExpiredProposals evaluators rounds = .returned done ∧ Calm done ∧
      done.store.Lapsed ∅ := by
  induction rounds generalizing database ids with
  | zero => exact absurd enough (Nat.not_lt_zero _)
  | succ rounds hypothesis =>
    -- The rounds after one that has taken the first proposal out.
    have continues : ∀ (next : Database Payload Rest) id, id ∈ ids → Calm next →
        next.store.Lapsed ids → (∀ proposal ∈ next.store.proposals, proposal.id ≠ id) →
        Quiet evaluators (next.clearExpiredProposals evaluators rounds) →
        ∃ done, next.clearExpiredProposals evaluators rounds = .returned done ∧ Calm done ∧
          done.store.Lapsed ∅ := by
      intro next id among still fewer gone rest
      refine hypothesis still (fewer.erase gone) ?_ rest
      rw [Finset.card_erase_of_mem among]
      have some_ := Finset.card_pos.mpr ⟨id, among⟩
      omega
    rw [Database.clearExpiredProposals] at quiet ⊢
    split
    · rename_i none
      refine ⟨database, rfl, calm, ?_⟩
      intro proposal member
      rw [firstToExpire_none none] at member
      exact absurd member List.not_mem_nil
    · rename_i proposal first
      rw [first] at quiet
      dsimp only at quiet
      have listed := firstToExpire_mem first
      split
      · rename_i due
        rw [if_pos due] at quiet
        have among := lapsed proposal listed due
        have outside : proposal.id ∉ database.executing.map Proposal.id := by
          rw [calm.idle]
          exact List.not_mem_nil
        split
        · rename_i authorized
          rw [if_pos authorized] at quiet
          have extended := pushProposal_extends evaluators maxNesting database proposal
          have sound := (sound_carried evaluators).pushed maxNesting database proposal calm.sound
            ⟨proposal, listed, rfl, rfl⟩
          have fewer := (lapsed_carried evaluators ids).pushed maxNesting database proposal lapsed
            trivial
          have concludes := (pushProposal_steady evaluators maxNesting).concludes database proposal
            calm.sound ⟨proposal, listed, rfl, rfl⟩ outside
          cases result : database.pushProposal evaluators maxNesting proposal with
          | returned done =>
            rw [result] at extended sound fewer quiet
            have gone := (sound.past proposal.id (pushProposal_executed result)).2
            exact continues done proposal.id among ⟨sound, extended.executing.trans calm.idle⟩ fewer
              gone quiet
          | thrown error failed =>
            rw [result] at extended sound fewer quiet
            have idle : failed.executing = [] := extended.executing.trans calm.idle
            refine continues _ proposal.id among
              (Calm.removed ⟨sound, idle⟩ proposal.id none)
              (fewer.remove proposal.id) ?_ quiet
            exact fun other member => ((Table.mem_eraseP_iff sound.ids).mp member).2
          | undefined failed =>
            rw [result] at concludes quiet
            exact (concludes quiet).elim
          | unfinished failed =>
            rw [result] at concludes quiet
            exact (concludes quiet).elim
        · rename_i refused
          rw [if_neg refused] at quiet
          refine continues _ proposal.id among
            (calm.removed proposal.id database.currentProposedTrx)
            (lapsed.remove proposal.id) ?_ quiet
          exact fun other member => ((Table.mem_eraseP_iff calm.sound.ids).mp member).2
      · rename_i later
        refine ⟨database, rfl, calm, ?_⟩
        intro other member due
        exact absurd ((firstToExpire_least first other member).trans due) later

/-- The ids of all proposals are few enough for the rounds that a block gives the sweep. -/
theorem lapsed_all (store : Store Payload Rest) :
    store.Lapsed (store.proposals.map Proposal.id).toFinset ∧
      (store.proposals.map Proposal.id).toFinset.card < store.proposals.length + 1 := by
  constructor
  · exact fun proposal member _ => List.mem_toFinset.mpr (List.mem_map_of_mem member)
  · have few := List.toFinset_card_le (store.proposals.map Proposal.id)
    rw [List.length_map] at few
    exact Nat.lt_succ_of_le few

/-!
## Chains
-/

theorem applyTransaction_calm (evaluators : Evaluators Payload Rest) {database : Database Payload Rest} (calm : Calm database)
    (trx : Transaction Payload) :
    (database.applyTransaction evaluators trx).Ends Calm :=
  (((sound_lasting evaluators).transaction trx calm.sound).and
    (applyTransaction_extends evaluators database trx).executing).mono
    (fun _ both => ⟨both.1, both.2.trans calm.idle⟩)

theorem applyTransaction_concludes {database : Database Payload Rest} (calm : Calm database)
    (trx : Transaction Payload) (quiet : Quiet evaluators (database.applyTransaction evaluators trx)) :
    (database.applyTransaction evaluators trx).Concludes Calm := by
  have ends := applyTransaction_calm evaluators calm trx
  have opened : Sound { database with currentTrxReference := trx.reference } :=
    calm.sound.same rfl rfl rfl rfl
  rw [Database.applyTransaction] at quiet ends ⊢
  split at ends
  · exact ends
  · rename_i checked
    rw [checked] at quiet
    dsimp only at quiet
    have applied := quiet.closed (fun _ => rfl)
    have ran := applyOperations_concludes (pushProposal_steady evaluators maxNesting) trx.operations
      opened applied
    generalize Database.applyOperations evaluators _ _ _ = outcome at ran ends
    cases outcome with
    | returned done => exact ends
    | thrown error failed => exact ends
    | undefined => exact ran
    | unfinished => exact ran

/-- A loop whose record is quiet concludes if its rounds do. -/
theorem each_concludes (evaluators : Evaluators Payload Rest) {A : Type} {round : List A → Database Payload Rest → A → Result Payload Rest}
    {invariant : Database Payload Rest → Prop}
    (extends_ : ∀ behind database element, Extends database (round behind database element))
    (kept : ∀ behind database element, invariant database →
      Quiet evaluators (round behind database element) →
        (round behind database element).Concludes invariant)
    (elements : List A) {database : Database Payload Rest} (begun : invariant database)
    (quiet : Quiet evaluators (each round database elements)) :
    (each round database elements).Concludes invariant := by
  induction elements generalizing database with
  | nil => exact begun
  | cons element behind hypothesis =>
    have first := Quiet.first (fun next => each_extends extends_ behind next) quiet
    refine (kept behind database element begun first).andThen (fun _ still => still) ?_
    intro next result still
    refine hypothesis still ?_
    have all := quiet
    rw [each_cons, result] at all
    exact all

theorem applyBlock_concludes {database : Database Payload Rest} (calm : Calm database)
    (block : Block Payload) (quiet : Quiet evaluators (database.applyBlock evaluators block)) :
    (database.applyBlock evaluators block).Concludes Calm ∧
      (database.applyBlock evaluators block).Ensures (fun after => after.store.Lapsed ∅) := by
  have ends := (((sound_lasting evaluators).block block calm.sound calm.idle).and
    (applyBlock_extends evaluators database block).executing).mono
    (fun _ both => (⟨both.1, both.2.trans calm.idle⟩ : Calm _))
  rw [Database.applyBlock] at quiet ends ⊢
  split
  · rename_i later
    rw [if_pos later] at quiet ends
    have swept : ∀ applied : Database Payload Rest, Extends applied
        (((applied.store.advance evaluators block |> fun store =>
          { applied with store := store }).clearExpiredProposals evaluators
            ((applied.store.advance evaluators block).proposals.length + 1)).andThen fun cleared =>
          .returned { cleared with store := { cleared.store with
            rest := evaluators.finishBlock block.timestamp cleared.store.rest } }) := by
      intro applied
      have ran : Extends applied _ := (clearExpiredProposals_extends evaluators
        ((applied.store.advance evaluators block).proposals.length + 1)
        { applied with store := applied.store.advance evaluators block }).alter rfl rfl
      exact ran.andThen (fun cleared => ⟨List.prefix_rfl, rfl⟩)
    have transactions := each_concludes evaluators (fun _ => applyTransaction_extends evaluators)
      (fun _ _ trx => fun calm => applyTransaction_concludes calm trx) block.transactions calm
      (Quiet.first swept quiet)
    cases applied : each (fun _ => Database.applyTransaction evaluators) database
        block.transactions with
    | returned after =>
      rw [applied] at quiet ends transactions
      dsimp only [andThen_returned] at quiet ends ⊢
      have advanced : Calm { after with store := after.store.advance evaluators block } :=
        ⟨transactions.sound.same rfl rfl rfl rfl, transactions.idle⟩
      obtain ⟨lapsed, few⟩ := lapsed_all (after.store.advance evaluators block)
      obtain ⟨done, cleared, still, none⟩ := clearExpiredProposals_returns _ advanced lapsed few
        (quiet.closed (fun _ => rfl))
      rw [cleared] at ends ⊢
      exact ⟨ends, none⟩
    | thrown error failed =>
      rw [applied] at ends
      exact ⟨ends, trivial⟩
    | undefined failed =>
      rw [applied] at transactions
      exact transactions.elim
    | unfinished failed =>
      rw [applied] at transactions
      exact transactions.elim
  · exact ⟨calm, trivial⟩

theorem recover_concludes {database : Database Payload Rest} {outcome : Result Payload Rest}
    (calm : Calm database) (concludes : outcome.Concludes Calm) :
    (database.recover outcome).Concludes Calm := by
  cases outcome with
  | returned done => exact concludes
  | thrown error failed =>
    exact ⟨calm.sound.same rfl rfl rfl (concludes.idle.trans calm.idle.symm), concludes.idle⟩
  | undefined => exact concludes
  | unfinished => exact concludes

theorem recover_quiet {database : Database Payload Rest} {outcome : Result Payload Rest}
    (quiet : Quiet evaluators (database.recover outcome)) : Quiet evaluators outcome := by
  cases outcome <;> exact quiet

/-- Every chain with a quiet record goes on to its end, or to a block that is refused. -/
theorem chain_concludes {database : Database Payload Rest} (calm : Calm database)
    (blocks : List (Block Payload)) (pending : List (Transaction Payload))
    (quiet : Quiet evaluators (chain evaluators database blocks pending)) :
    (chain evaluators database blocks pending).Concludes Calm := by
  have heads := each_concludes evaluators (fun _ => applyBlock_extends evaluators)
    (fun _ _ block => fun calm quiet => (applyBlock_concludes calm block quiet).1) blocks calm
    (Quiet.first (fun head => each_extends (fun _ state trx =>
      recover_extends (applyTransaction_extends evaluators state trx)) pending head) quiet)
  refine heads.andThen (fun _ still => still) ?_
  intro head result still
  refine each_concludes evaluators (fun _ state trx =>
    recover_extends (applyTransaction_extends evaluators state trx)) ?_ pending still ?_
  · intro _ state trx here rest
    exact recover_concludes here (applyTransaction_concludes here trx (recover_quiet rest))
  · have all := quiet
    rw [chain, result] at all
    exact all

theorem applyTransaction_lapsed (evaluators : Evaluators Payload Rest) {ids : Finset Nat} {database : Database Payload Rest}
    (lapsed : database.store.Lapsed ids) (trx : Transaction Payload) :
    (database.applyTransaction evaluators trx).Ends (fun after => after.store.Lapsed ids) := by
  have carried := lapsed_carried evaluators ids
  have inner : ∀ (state : Database Payload Rest) proposal, state.store.Lapsed ids → True →
      (Database.pushProposal evaluators maxNesting state proposal).Ends
        (fun after => after.store.Lapsed ids) := carried.pushed maxNesting
  rw [Database.applyTransaction]
  split
  · exact lapsed
  · have opened : Database.store { database with currentTrxReference := trx.reference } =
        database.store := rfl
    refine Ends.andThen (carried.operations inner trx.operations (opened ▸ lapsed)) ?_ ?_
    · exact fun _ still => still
    · exact fun _ still => still

/-- After every block, and with pending transactions, no expired proposal is left. -/
theorem chain_lapsed {database : Database Payload Rest} (calm : Calm database)
    (lapsed : database.store.Lapsed ∅) (blocks : List (Block Payload))
    (pending : List (Transaction Payload))
    (quiet : Quiet evaluators (chain evaluators database blocks pending)) :
    (chain evaluators database blocks pending).Ensures (fun final => final.store.Lapsed ∅) := by
  have heads : ∀ blocks (database : Database Payload Rest), Calm database →
      database.store.Lapsed ∅ →
      Quiet evaluators (each (fun _ => Database.applyBlock evaluators) database blocks) →
      (each (fun _ => Database.applyBlock evaluators) database blocks).Ensures
        (fun head => head.store.Lapsed ∅) := by
    intro blocks
    induction blocks with
    | nil => exact fun _ _ none _ => none
    | cons block behind hypothesis =>
      intro database calm _ quiet
      have first := Quiet.first (fun next =>
        each_extends (fun _ => applyBlock_extends evaluators) behind next) quiet
      obtain ⟨concludes, drained⟩ := applyBlock_concludes calm block first
      rw [each_cons] at quiet ⊢
      cases result : database.applyBlock evaluators block with
      | returned next =>
        rw [result] at concludes drained quiet
        exact hypothesis next concludes drained quiet
      | thrown => trivial
      | undefined => trivial
      | unfinished => trivial
  refine Ensures.andThen (heads blocks database calm lapsed (Quiet.first (fun head =>
    each_extends (fun _ state trx => recover_extends (applyTransaction_extends evaluators state trx))
      pending head) quiet)) ?_
  intro head none
  refine each_ensures ?_ none
  intro _ trx state _ here
  have applied := applyTransaction_lapsed evaluators here trx
  cases result : state.applyTransaction evaluators trx with
  | returned done =>
    rw [result] at applied
    exact applied
  | thrown error failed => exact here
  | undefined => trivial
  | unfinished => trivial

end DeipChain.Proposals
