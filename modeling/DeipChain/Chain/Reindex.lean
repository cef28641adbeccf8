import DeipChain.Chain.Transactions

/-!
# Replaying the block log

`reindex` applies the blocks of the log to a new object store, without sessions and under
skip flags. The flags leave out checks, which the blocks of a chain have passed before,
and with the duplicate check also the entry of each transaction in the index of those
already applied. Replaying therefore reaches the state of the live node with that index
empty (`replay_forgets`), and the two agree exactly when the live node has forgotten
every transaction of the log as well.
-/
namespace DeipChain.Chain

open Snapshots Result

variable {Id Tx H TxId Rest : Type}

/-- The skip flags of `reindex`. -/
def SkipFlags.reindex : SkipFlags :=
  { witnessSignature := true, transactionSignatures := true, transactionDupeCheck := true,
    taposCheck := true, authorityCheck := true, merkleCheck := true,
    witnessScheduleCheck := true, validate := true }

/-- `set_revision`: an undo stack that is not empty is refused. -/
def setRevision {S : Type} (revision : Int) (store : UndoStore S) :
    Except ChainError (UndoStore S) :=
  match store.saved with
  | [] => .ok { store with revision := revision }
  | _ :: _ => .error (.rejected "cannot set revision while there is an existing undo stack")

section Replay

variable [DecidableEq Id] [DecidableEq TxId] (hashing : Hashing Id Tx H)
  (evaluators : Evaluators Id Tx H TxId Rest)

/-- `apply_block` as `reindex` calls it: no session of its own and no block log. -/
def replayBlock (block : Block Id Tx H) (store : UndoStore (ChainState Id (Body TxId Tx Rest))) :
    Snapshots.Outcome ChainError (UndoStore (ChainState Id (Body TxId Tx Rest))) :=
  let replaying := evaluators.processing hashing .reindex
  andThen (runAll (openingSteps replaying block ++ headSteps hashing replaying block) store)
    (fun headed => runAll (finishSteps hashing replaying block)
      (headed.commit headed.current.core.lastIrreversibleBlockNum))

/-- The loop of `reindex` over the blocks of the log. -/
def replay : List (Block Id Tx H) → UndoStore (ChainState Id (Body TxId Tx Rest)) →
    Snapshots.Outcome ChainError (UndoStore (ChainState Id (Body TxId Tx Rest)))
  | [], store => .ok () store
  | block :: rest, store => andThen (replayBlock hashing evaluators block store) (replay rest)

/-- `reindex` -/
def reindex (genesis : Body TxId Tx Rest) (log : List (Block Id Tx H)) :
    Except ChainError (UndoStore (ChainState Id (Body TxId Tx Rest))) :=
  match log with
  | [] => .error (.rejected "No blocks in block log. Cannot reindex an empty chain.")
  | _ :: _ =>
    match replay hashing evaluators log (Database.genesis hashing genesis).store with
    | .error thrown _ => .error thrown
    | .ok _ store => setRevision store.current.core.headBlockNumber store

end Replay

/-- The state without the index of applied transactions. -/
def forgetful (state : ChainState Id (Body TxId Tx Rest)) : ChainState Id (Body TxId Tx Rest) :=
  { state with body := { state.body with transactions := [] } }

/-- What the live step does, the replayed one does without the index. -/
def Mimics (live replayed : Step (ChainState Id (Body TxId Tx Rest)) ChainError) : Prop :=
  ∀ state reached, (live state).eval state = .ok () reached →
    (replayed (forgetful state)).eval (forgetful state) = .ok () (forgetful reached)

theorem evalAll_mimics {live replayed : List (Step (ChainState Id (Body TxId Tx Rest)) ChainError)}
    (mimics : List.Forall₂ Mimics live replayed) {state reached : ChainState Id (Body TxId Tx Rest)}
    (done : evalAll live state = .ok () reached) :
    evalAll replayed (forgetful state) = .ok () (forgetful reached) := by
  induction mimics generalizing state with
  | nil =>
    simp only [evalAll, EStateM.Result.ok.injEq, true_and] at done
    rw [done]
    rfl
  | cons first rest inductionHypothesis =>
    obtain ⟨middle, begun, later⟩ := evalAll_cons_ok.mp done
    exact evalAll_cons_ok.mpr ⟨forgetful middle, first state middle begun,
      inductionHypothesis later⟩

theorem coreStep_mimics (change : Core Id → Except ChainError (Core Id)) :
    Mimics (coreStep change : Step (ChainState Id (Body TxId Tx Rest)) ChainError)
      (coreStep change) := by
  intro state reached done
  obtain ⟨core, changed, rfl⟩ := eval_coreStep_ok.mp done
  exact eval_coreStep_ok.mpr ⟨core, changed, rfl⟩

theorem restStep_mimics (step : RestStep Id Rest) :
    Mimics (bodyStep (restStep step) : Step (ChainState Id (Body TxId Tx Rest)) ChainError)
      (bodyStep (restStep step)) := by
  intro state reached done
  obtain ⟨rest, ran, rfl⟩ := restStep_ok.mp done
  exact restStep_ok.mpr ⟨rest, ran, rfl⟩

theorem commit_closed {S : Type} {store : UndoStore S} (closed : store.saved = [])
    (revision : Int) : store.commit revision = store := by
  cases store
  simp_all [UndoStore.commit]

/-- Steps around a commit, on a store without sessions. -/
theorem runAll_commit_closed {R : Type} {first second : List (Step (ChainState Id R) ChainError)}
    {start middle final : ChainState Id R} (revision : Int)
    (heads : evalAll first start = .ok () middle) (ends : evalAll second middle = .ok () final) :
    ∃ bumped, andThen (runAll first ⟨start, [], revision⟩) (fun headed =>
        runAll second (headed.commit headed.current.core.lastIrreversibleBlockNum)) =
      .ok () ⟨final, [], bumped⟩ := by
  rw [runAll_closed _ _ rfl, heads]
  dsimp only [outcomeMap, andThen]
  rw [commit_closed rfl, runAll_closed _ _ rfl, UndoStore.put_current, ends]
  exact ⟨_, rfl⟩

section Simulation

variable {hashing : Hashing Id Tx H} {evaluators : Evaluators Id Tx H TxId Rest}
  {block : Block Id Tx H}

theorem openBlock_mimics : Mimics (bodyStep (evaluators.openBlock .nothing block))
    (bodyStep (evaluators.openBlock .reindex block)) := by
  intro state reached done
  obtain ⟨⟨early, _⟩, rest, ran, rfl⟩ := openBlock_ok.mp done
  exact openBlock_ok.mpr ⟨⟨early, rfl, rfl⟩, rest, ran, rfl⟩

theorem updateTime_mimics : Mimics (bodyStep (evaluators.updateTime block))
    (bodyStep (evaluators.updateTime block)) := by
  intro state reached done
  obtain ⟨rest, ran, rfl⟩ := updateTime_ok.mp done
  exact updateTime_ok.mpr ⟨rest, ran, rfl⟩

theorem clearExpiredTransactions_mimics :
    Mimics (bodyStep Evaluators.clearExpiredTransactions :
        Step (ChainState Id (Body TxId Tx Rest)) ChainError)
      (bodyStep Evaluators.clearExpiredTransactions) := by
  intro state reached done
  obtain ⟨body, ran, rfl⟩ := bodyStep_ok.mp done
  simp only [Evaluators.clearExpiredTransactions, Script.eval, EStateM.Result.ok.injEq,
    true_and] at ran
  subst ran
  exact bodyStep_ok.mpr ⟨_, rfl, rfl⟩

variable [DecidableEq TxId]

/-- The checks that are left are those of the expiration. -/
theorem checkTransaction_skipped {transaction : Tx} {core : Core Id} {body : Body TxId Tx Rest}
    (passed : evaluators.checkTransaction hashing .nothing transaction core body = .ok ()) :
    evaluators.checkTransaction hashing .reindex transaction core
      { body with transactions := [] } = .ok () := by
  simp only [Evaluators.checkTransaction, bind_ok_iff] at passed ⊢
  obtain ⟨_, _, _, _, _, _, timely⟩ := passed
  refine ⟨(), rfl, (), rfl, (), rfl, ?_⟩
  unfold Evaluators.checkAgainstHead at timely ⊢
  split at timely
  · rename_i started
    simp only [bind_ok_iff, require_ok_iff, exists_const] at timely
    obtain ⟨_, _, near, early⟩ := timely
    simp only [started, if_true, bind_ok_iff, require_ok_iff, exists_const]
    exact ⟨(), rfl, near, early⟩
  · rename_i unstarted
    rw [if_neg unstarted]
    rfl

theorem applyTransaction_mimics (transaction : Tx) :
    Mimics (bodyStep (evaluators.applyTransaction hashing .nothing transaction))
      (bodyStep (evaluators.applyTransaction hashing .reindex transaction)) := by
  intro state reached done
  obtain ⟨passed, rest, ran, rfl⟩ := applyTransaction_ok.mp done
  exact applyTransaction_ok.mpr ⟨checkTransaction_skipped passed, rest, ran, rfl⟩

theorem finishSteps_mimic :
    List.Forall₂ Mimics (finishSteps hashing (evaluators.processing hashing .nothing) block)
      (finishSteps hashing (evaluators.processing hashing .reindex) block) := by
  refine .cons (coreStep_mimics _) (.cons clearExpiredTransactions_mimics ?_)
  repeat' first
    | exact .nil
    | refine .cons (restStep_mimics _) ?_

theorem headSteps_mimic :
    List.Forall₂ Mimics (headSteps hashing (evaluators.processing hashing .nothing) block)
      (headSteps hashing (evaluators.processing hashing .reindex) block) := by
  refine .cons (coreStep_mimics _) (.cons (restStep_mimics _) (.cons (coreStep_mimics _)
    (.cons ?_ .nil)))
  intro state reached done
  obtain ⟨core, raised, rfl⟩ := eval_coreStep_ok.mp done
  exact eval_coreStep_ok.mpr ⟨core, raised, rfl⟩

variable {state : ChainState Id (Body TxId Tx Rest)}

/-- The objects of the index come from the transactions. -/
theorem applyTransactions_objects {transactions : List Tx}
    {after : ChainState Id (Body TxId Tx Rest)} {object : TransactionObject TxId Tx}
    (done : evalAll (transactions.map (fun transaction =>
      bodyStep (evaluators.applyTransaction hashing .nothing transaction))) state = .ok () after)
    (member : object ∈ after.body.transactions) :
    object ∈ state.body.transactions ∨
      ∃ transaction ∈ transactions, object.expiration = evaluators.expiration transaction := by
  induction transactions generalizing state with
  | nil =>
    simp only [List.map_nil, evalAll, EStateM.Result.ok.injEq, true_and] at done
    exact .inl (done ▸ member)
  | cons transaction rest inductionHypothesis =>
    obtain ⟨next, first, later⟩ := evalAll_cons_ok.mp done
    obtain ⟨_, _, _, rfl⟩ := applyTransaction_ok.mp first
    rcases inductionHypothesis later with kept | ⟨other, inRest, expires⟩
    · simp only [Evaluators.remember, SkipFlags.nothing, Bool.false_eq_true, if_false,
        mem_insertByExpiration] at kept
      rcases kept with rfl | older
      · exact .inr ⟨transaction, List.mem_cons_self, rfl⟩
      · exact .inl older
    · exact .inr ⟨other, List.mem_cons_of_mem _ inRest, expires⟩

variable [DecidableEq Id]

theorem openingSteps_mimic :
    List.Forall₂ Mimics (openingSteps (evaluators.processing hashing .nothing) block)
      (openingSteps (evaluators.processing hashing .reindex) block) := by
  refine .cons ?_ (.cons (coreStep_mimics _) (.cons openBlock_mimics (List.rel_append ?_
    (.cons updateTime_mimics .nil))))
  · intro state reached done
    obtain ⟨core, matched, rfl⟩ := eval_coreStep_ok.mp done
    refine eval_coreStep_ok.mpr ⟨core, ?_, rfl⟩
    split at matched
    · exact matched
    · cases matched
  · rw [List.forall₂_map_left_iff, List.forall₂_map_right_iff]
    exact List.forall₂_same.mpr (fun transaction _ => applyTransaction_mimics transaction)

variable {genesis : Body TxId Tx Rest} {chain : List (Block Id Tx H)}

/-- A replayed block on a store without sessions. -/
theorem replayBlock_forgets {reached : ChainState Id (Body TxId Tx Rest)} (revision : Int)
    (done : applied hashing (evaluators.processing hashing .nothing) block state =
      .ok () reached) :
    ∃ bumped, replayBlock hashing evaluators block ⟨forgetful state, [], revision⟩ =
      .ok () ⟨forgetful reached, [], bumped⟩ := by
  obtain ⟨middle, prepares, finishes⟩ := andThen_ok.mp done
  have heads := evalAll_mimics (List.rel_append openingSteps_mimic headSteps_mimic) prepares
  have ends := evalAll_mimics finishSteps_mimic finishes
  exact runAll_commit_closed revision heads ends

theorem replay_append (first second : List (Block Id Tx H))
    (store : UndoStore (ChainState Id (Body TxId Tx Rest))) :
    replay hashing evaluators (first ++ second) store =
      andThen (replay hashing evaluators first store) (replay hashing evaluators second) := by
  induction first generalizing store with
  | nil => rfl
  | cons block rest inductionHypothesis =>
    simp only [List.cons_append, replay]
    cases replayBlock hashing evaluators block store with
    | ok _ reached => exact inductionHypothesis reached
    | error thrown reached => rfl

/-- Replaying a chain reaches its state without the index of applied transactions. -/
theorem replay_forgets (fresh : genesis.transactions = [])
    (replayed : stateAfter hashing (evaluators.processing hashing .nothing) genesis chain =
      some state) :
    ∃ revision, replay hashing evaluators chain.reverse (Database.genesis hashing genesis).store =
      .ok () ⟨forgetful state, [], revision⟩ := by
  induction chain generalizing state with
  | nil =>
    simp only [stateAfter, Option.some.injEq] at replayed
    subst replayed
    refine ⟨0, ?_⟩
    simp only [List.reverse_nil, replay, Database.genesis, forgetful, ← fresh]
  | cons block rest inductionHypothesis =>
    obtain ⟨before, replayedBefore, done⟩ := stateAfter_cons.mp replayed
    obtain ⟨revision, ran⟩ := inductionHypothesis replayedBefore
    obtain ⟨bumped, last⟩ := replayBlock_forgets revision done
    refine ⟨bumped, ?_⟩
    rw [List.reverse_cons, replay_append, ran]
    simp only [andThen, replay, last]

/-- The index after a block: what had not expired of the old one and of its own
transactions. -/
theorem applied_index {reached : ChainState Id (Body TxId Tx Rest)}
    (done : applied hashing (evaluators.processing hashing .nothing) block state =
      .ok () reached) :
    reached.body.time = evaluators.timestamp block.header ∧
      ∃ objects, reached.body.transactions = unexpired reached.body.time objects ∧
        ∀ object ∈ objects, object ∈ state.body.transactions ∨
          ∃ transaction ∈ block.transactions,
            object.expiration = evaluators.expiration transaction := by
  obtain ⟨middle, prepares, finishes⟩ := andThen_ok.mp done
  obtain ⟨opened, after, _, _, _, applies, _, _, _, time, index⟩ := prepared_parts prepares
  have view := finished_timeAndIndex hashing evaluators .nothing block middle
  rw [finishes] at view
  simp only [left, timeAndIndex, Prod.mk.injEq] at view
  obtain ⟨_, sameTime, cleared⟩ := view
  refine ⟨sameTime.trans time, middle.body.transactions, sameTime ▸ cleared, ?_⟩
  intro object member
  rw [index] at member
  have sourced := applyTransactions_objects applies member
  exact sourced

/-- The index of a state comes from the transactions of its chain. -/
theorem stateAfter_objects (fresh : genesis.transactions = [])
    (replayed : stateAfter hashing (evaluators.processing hashing .nothing) genesis chain =
      some state) {object : TransactionObject TxId Tx} (member : object ∈ state.body.transactions) :
    ∃ block ∈ chain, ∃ transaction ∈ block.transactions,
      object.expiration = evaluators.expiration transaction := by
  induction chain generalizing state with
  | nil =>
    simp only [stateAfter, Option.some.injEq] at replayed
    subst replayed
    rw [fresh] at member
    cases member
  | cons block rest inductionHypothesis =>
    obtain ⟨before, replayedBefore, done⟩ := stateAfter_cons.mp replayed
    obtain ⟨_, objects, index, sourced⟩ := applied_index done
    rw [index] at member
    rcases sourced object (List.dropWhile_subset _ member) with older | ⟨transaction, own, expires⟩
    · obtain ⟨earlier, inRest, found⟩ := inductionHypothesis replayedBefore older
      exact ⟨earlier, List.mem_cons_of_mem _ inRest, found⟩
    · exact ⟨block, List.mem_cons_self, transaction, own, expires⟩

/-- The index of a chain is empty once all its transactions have expired, and not
before. -/
theorem forgotten_iff {rest : List (Block Id Tx H)} (fresh : genesis.transactions = [])
    (replayed : stateAfter hashing (evaluators.processing hashing .nothing) genesis
      (block :: rest) = some state) :
    state.body.transactions = [] ↔
      ∀ earlier ∈ block :: rest, ∀ transaction ∈ earlier.transactions,
        evaluators.expiration transaction < evaluators.timestamp block.header := by
  obtain ⟨before, replayedBefore, done⟩ := stateAfter_cons.mp replayed
  obtain ⟨time, objects, index, sourced⟩ := applied_index done
  constructor
  · intro forgotten earlier member transaction own
    have taken : transaction ∈
        (block :: rest).flatMap (fun block => block.transactions.reverse) :=
      List.mem_flatMap.mpr ⟨earlier, member, List.mem_reverse.mpr own⟩
    rcases (stateAfter_guarded replayed).remembered transaction taken with
      ⟨object, kept, _⟩ | ⟨_, expired⟩
    · rw [forgotten] at kept
      cases kept
    · rwa [time] at expired
  · intro expired
    rw [index, unexpired, List.dropWhile_eq_nil_iff]
    intro object member
    rw [decide_eq_true_eq, time]
    rcases sourced object member with older | ⟨transaction, own, expires⟩
    · obtain ⟨earlier, inRest, transaction, own, expires⟩ :=
        stateAfter_objects fresh replayedBefore older
      rw [expires]
      exact expired earlier (List.mem_cons_of_mem _ inRest) transaction own
    · rw [expires]
      exact expired block List.mem_cons_self transaction own

/-- Reindexing a chain: the state of the chain, if all its transactions have expired. -/
theorem reindex_chain_iff {rest : List (Block Id Tx H)} (fresh : genesis.transactions = [])
    (replayed : stateAfter hashing (evaluators.processing hashing .nothing) genesis
      (block :: rest) = some state) :
    reindex hashing evaluators genesis (block :: rest).reverse =
        .ok ⟨state, [], (block :: rest).length⟩ ↔
      ∀ earlier ∈ block :: rest, ∀ transaction ∈ earlier.transactions,
        evaluators.expiration transaction < evaluators.timestamp block.header := by
  rw [← forgotten_iff fresh replayed]
  obtain ⟨revision, ran⟩ := replay_forgets fresh replayed
  have number : (forgetful state).core.headBlockNumber = (block :: rest).length :=
    (stateAfter_reached replayed).number
  have outcome : reindex hashing evaluators genesis (block :: rest).reverse =
      .ok ⟨forgetful state, [], (block :: rest).length⟩ := by
    unfold reindex
    split
    · rename_i empty
      simp at empty
    · rename_i first more order
      rw [ran]
      simp only [setRevision, number]
  rw [outcome]
  simp only [Except.ok.injEq, UndoStore.mk.injEq, and_true, forgetful]
  constructor
  · intro same
    rw [← same]
  · intro empty
    rw [← empty]

end Simulation

section Runs

variable {hashing : Hashing Id Tx H}

/-- A log of blocks of a chain, as the lower end of the chain. -/
theorem log_eq_drop {chain : List (Block Id Tx H)} {log : BlockLog hashing} {count : Nat}
    (linked : IsChain hashing chain) (faithful : ∀ block ∈ log.blocks, block ∈ chain)
    (logged : count + log.blocks.length = chain.length) :
    log.blocks = (chain.drop count).reverse := by
  rw [List.reverse_drop]
  refine List.ext_getElem? fun position => ?_
  rw [List.getElem?_take]
  cases found : log.blocks[position]? with
  | none =>
    have beyond := List.getElem?_eq_none_iff.mp found
    rw [if_neg (by omega)]
  | some block =>
    have within := (List.getElem?_eq_some_iff.mp found).1
    have same := Database.blockAt_of_faithful linked faithful found
    simp only [blockAt, Nat.add_one_ne_zero, if_false, Nat.add_sub_cancel] at same
    rw [if_pos (by omega), same]

theorem undoAll_saved {S : Type} (current : S) (saved : List S) (revision : Int) :
    (UndoStore.mk current saved revision).undoAll.saved = [] := by
  induction saved generalizing current revision with
  | nil => rfl
  | cons first more inductionHypothesis =>
    rw [undoAll_cons]
    exact inductionHypothesis first (revision - 1)

variable [DecidableEq Id] [DecidableEq TxId]

open Database in
/-- Reindexing the log of a node whose run was smooth gives the store that the node has
after the last block of the log, the one `undo_all` takes it back to, exactly when the log
has a block and every transaction in it expired before its last block.

Proof: the log of a smooth run is the chain up to the committed height, and `undo_all`
reaches the state after it, with its height as revision. Replaying it gives the same state
with an empty index, and the index of the state is empty exactly when all transactions
have expired. -/
theorem reindex_restores_iff (hashing : Hashing Id Tx H)
    (evaluators : Evaluators Id Tx H TxId Rest) (time : Nat) (genesis : Rest)
    (calls : List (Call Id Tx H))
    (smoothly : smoothRun (evaluators.processing hashing .nothing) calls
      (Database.genesis hashing ⟨time, [], genesis⟩) = true) :
    let live := afterCalls (evaluators.processing hashing .nothing) calls
      (Database.genesis hashing ⟨time, [], genesis⟩)
    reindex hashing evaluators ⟨time, [], genesis⟩ live.blockLog.blocks =
        .ok live.clearPending.store.undoAll ↔
      ∃ last, live.blockLog.blocks.getLast? = some last ∧
        ∀ block ∈ live.blockLog.blocks, ∀ transaction ∈ block.transactions,
          evaluators.expiration transaction < evaluators.timestamp last.header := by
  intro live
  obtain ⟨chain, committed, quiescent, _⟩ := afterCalls_quiescent calls
    (quiescent_genesis (evaluators.processing hashing .nothing) ⟨time, [], genesis⟩) smoothly
  obtain ⟨⟨lineage, revision, depth⟩, _, linked, _, logged, faithful, _⟩ :=
    quiescent.resting.anchored
  have sameLog : live.blockLog = live.clearPending.blockLog := (clearPending_frame live).1.symm
  generalize stored : live.clearPending.store = store at lineage revision depth ⊢
  have prefixed : live.blockLog.blocks = (chain.drop store.saved.length).reverse := by
    rw [sameLog]
    exact log_eq_drop linked faithful (by rw [logged]; exact depth)
  have rewound := lineage.rewound store.revision
  have whole : store.undoAll = ⟨store.undoAll.current, [], (chain.drop store.saved.length).length⟩ := by
    have saved := undoAll_saved store.current store.saved store.revision
    have number := undoAll_revision store.current store.saved store.revision
    have height : (store.undoAll).revision = ((chain.drop store.saved.length).length : Int) := by
      rw [List.length_drop]
      exact number.trans (by omega)
    rw [← height]
    exact congrArg (fun saved => UndoStore.mk store.undoAll.current saved store.undoAll.revision) saved
  rw [whole, prefixed]
  cases lower : chain.drop store.saved.length with
  | nil => simp [reindex]
  | cons block rest =>
    rw [lower] at rewound
    rw [reindex_chain_iff rfl rewound]
    simp only [List.getLast?_reverse, List.head?_cons, Option.some.injEq, List.mem_reverse,
      exists_eq_left']

end Runs

namespace TimedChain

/-- The log of a long chain: alice's blocks at seconds 10, 11 and so on, the first with the
given transactions. -/
def aliceChain (transactions : List Nat) : Nat → List (Entry Nat Nat)
  | 0 => [("alice", transactions, 10)]
  | count + 1 => ("alice", [], 11 + count) :: aliceChain transactions count

/-- Twenty-two blocks of alice, pushed: the first one becomes irreversible. -/
def aliceRun (transactions : List Nat) :
    List (Database.Call (List (Entry Nat Nat)) Nat Nat) :=
  (Entry.blocks (aliceChain transactions 21)).map Database.Call.pushBlock

/-- The node after the run. -/
def live (transactions : List Nat) : Database (Hashing.spelled Nat Nat) (Body Nat Nat Unit) :=
  Database.afterCalls (evaluators.processing (Hashing.spelled Nat Nat) .nothing)
    (aliceRun transactions) (Database.genesis (Hashing.spelled Nat Nat) ⟨0, [], ()⟩)

/-- A transaction that expires late is lost by reindexing. -/
theorem reindex_forgets_transaction :
    ¬ reindex (Hashing.spelled Nat Nat) evaluators ⟨0, [], ()⟩ (live [1000]).blockLog.blocks =
      .ok (live [1000]).clearPending.store.undoAll := by
  intro same
  have remembered : ((live [1000]).clearPending.store.undoAll).current.body.transactions.length = 1 := by
    decide +kernel
  have forgotten : (reindex (Hashing.spelled Nat Nat) evaluators ⟨0, [], ()⟩
      (live [1000]).blockLog.blocks).toOption.map
        (fun store => store.current.body.transactions.length) = some 0 := by
    decide +kernel
  rw [same] at forgotten
  simp only [Except.toOption, Option.map_some, remembered] at forgotten
  cases forgotten

/-- A transaction that expires before its block is not. -/
theorem reindex_restores_expired :
    Database.smoothRun (evaluators.processing (Hashing.spelled Nat Nat) .nothing) (aliceRun [5])
        (Database.genesis (Hashing.spelled Nat Nat) ⟨0, [], ()⟩) = true ∧
      reindex (Hashing.spelled Nat Nat) evaluators ⟨0, [], ()⟩ (live [5]).blockLog.blocks =
        .ok (live [5]).clearPending.store.undoAll := by
  have smoothly : Database.smoothRun (evaluators.processing (Hashing.spelled Nat Nat) .nothing)
      (aliceRun [5]) (Database.genesis (Hashing.spelled Nat Nat) ⟨0, [], ()⟩) = true := by
    decide +kernel
  have logged : (live [5]).blockLog.blocks = [Entry.block ("alice", [5], 10) []] := by
    decide +kernel
  have restores := reindex_restores_iff (Hashing.spelled Nat Nat) evaluators 0 () (aliceRun [5])
    smoothly
  dsimp only at restores
  rw [← live, logged] at restores
  rw [logged]
  refine ⟨smoothly, restores.mpr ⟨_, rfl, ?_⟩⟩
  intro block member
  rw [List.mem_singleton.mp member]
  decide

end TimedChain

end DeipChain.Chain
