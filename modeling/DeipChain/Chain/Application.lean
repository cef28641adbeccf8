import DeipChain.Chain.Database

/-!
# What the application of a block does to the node

A block that throws before its last irreversible block is computed leaves nothing
behind. After that, everything depends on whether the block's own session is still
open. While it is, undoing it brings the objects back, but the committed part of the
history and the blocks written to the log are not given back. When the new last
irreversible block is the block itself, its own session has been committed, and a throw
leaves the objects as they are.
-/
namespace DeipChain.Chain

open Snapshots

variable {Id Tx H R : Type} {hashing : Hashing Id Tx H}

namespace Database

/-- Committing below the newest session keeps that session. -/
theorem commit_put_start {S : Type} {store : UndoStore S} {revision : Int} (state : S)
    (below : revision ≤ store.revision) :
    (store.start.put state).commit revision = (store.commit revision).start.put state := by
  have steps : (store.revision + 1 - revision).toNat = (store.revision - revision).toNat + 1 := by
    omega
  simp [UndoStore.commit, UndoStore.start, UndoStore.put, steps]

/-- Committing the newest session leaves none open. -/
theorem commit_put_start_closed {S : Type} {store : UndoStore S} {revision : Int} (state : S)
    (above : store.revision < revision) :
    (store.start.put state).commit revision =
      { current := state, saved := [], revision := store.revision + 1 } := by
  have steps : (store.revision + 1 - revision).toNat = 0 := by omega
  simp [UndoStore.commit, UndoStore.start, UndoStore.put, steps]

section Log

variable (forkDb : ForkDatabase Id Tx H)

/-- The fork database has a block of the number to write to the log. -/
def Loggable (hashing : Hashing Id Tx H) (forkDb : ForkDatabase Id Tx H) (num : Nat) : Prop :=
  ∃ item, forkDb.fetchBlockOnMainBranchByNumber hashing num = some item ∧
    hashing.num item.block = num

theorem append_length {log longer : BlockLog hashing} {block : Block Id Tx H}
    (appended : log.append block = some longer) :
    longer.blocks = log.blocks ++ [block] ∧ hashing.num block = log.blocks.length + 1 := by
  unfold BlockLog.append at appended
  split at appended
  · rename_i expected
    cases appended
    exact ⟨rfl, expected⟩
  · cases appended

/-- The log keeps its blocks and grows by at most the blocks asked for. -/
theorem writeLog_bounds (count : Nat) (log : BlockLog hashing) :
    log.blocks.length ≤ (left (writeLog forkDb count log)).blocks.length ∧
      (left (writeLog forkDb count log)).blocks.length ≤ log.blocks.length + count := by
  induction count generalizing log with
  | zero => exact ⟨Nat.le_refl _, Nat.le_refl _⟩
  | succ count inductionHypothesis =>
    unfold writeLog
    split
    · exact ⟨Nat.le_refl _, Nat.le_add_right _ _⟩
    · split
      · exact ⟨Nat.le_refl _, Nat.le_add_right _ _⟩
      · rename_i longer appended
        obtain ⟨blocks, _⟩ := append_length appended
        have grown : longer.blocks.length = log.blocks.length + 1 := by simp [blocks]
        have later := inductionHypothesis longer
        omega

/-- The log reaches a number exactly when every block up to it could be written. -/
theorem writeLog_reaches {count bound : Nat} {log : BlockLog hashing}
    (within : log.blocks.length ≤ bound) :
    bound < (left (writeLog forkDb count log)).blocks.length ↔
      bound < log.blocks.length + count ∧
        ∀ num, log.blocks.length < num → num ≤ bound + 1 → Loggable hashing forkDb num := by
  induction count generalizing log with
  | zero =>
    simp only [writeLog, left, Nat.add_zero]
    omega
  | succ count inductionHypothesis =>
    unfold writeLog
    split
    · rename_i missing
      have next : ¬ Loggable hashing forkDb (log.blocks.length + 1) := by
        rintro ⟨item, found, _⟩
        rw [missing] at found
        cases found
      simp only [left]
      constructor
      · omega
      · intro reach
        exact absurd (reach.2 _ (Nat.lt_succ_self _) (by omega)) next
    · rename_i item found
      split
      · rename_i refused
        have next : ¬ Loggable hashing forkDb (log.blocks.length + 1) := by
          rintro ⟨other, foundOther, numbered⟩
          rw [found] at foundOther
          cases foundOther
          simp [BlockLog.append, numbered] at refused
        simp only [left]
        constructor
        · omega
        · intro reach
          exact absurd (reach.2 _ (Nat.lt_succ_self _) (by omega)) next
      · rename_i longer appended
        obtain ⟨blocks, numbered⟩ := append_length appended
        have grown : longer.blocks.length = log.blocks.length + 1 := by simp [blocks]
        have next : Loggable hashing forkDb (log.blocks.length + 1) := ⟨item, found, numbered⟩
        by_cases full : longer.blocks.length ≤ bound
        · rw [inductionHypothesis full, grown]
          constructor
          · rintro ⟨room, all⟩
            refine ⟨by omega, fun num above below => ?_⟩
            by_cases first : num = log.blocks.length + 1
            · exact first ▸ next
            · exact all num (by omega) below
          · rintro ⟨room, all⟩
            exact ⟨by omega, fun num above below => all num (by omega) below⟩
        · have reached := (writeLog_bounds forkDb count longer).1
          have only : bound = log.blocks.length := by omega
          constructor
          · intro _
            refine ⟨by omega, fun num above below => ?_⟩
            have first : num = log.blocks.length + 1 := by omega
            exact first ▸ next
          · intro _
            omega

end Log

section Pending

variable {processing : Processing Id Tx H R}

/-- What a pending transaction does to the objects. -/
def pendingState (processing : Processing Id Tx H R) : List Tx → ChainState Id R → ChainState Id R
  | [], state => state
  | transaction :: rest, state =>
    if processing.isKnownTransaction transaction state.body then pendingState processing rest state
    else
      match (bodyStep (processing.applyTransaction transaction) state).eval state with
      | .ok _ reached => pendingState processing rest reached
      | .error _ _ => pendingState processing rest state

theorem squash_current {S : Type} (store : UndoStore S) : store.squash.current = store.current := by
  unfold UndoStore.squash
  split <;> rfl

theorem openPending_current (database : Database hashing R) :
    database.openPending.store.current = database.store.current := by
  unfold openPending
  split <;> rfl

theorem openPending_frame (database : Database hashing R) :
    database.openPending.blockLog = database.blockLog ∧
      database.openPending.forkDb = database.forkDb := by
  unfold openPending
  split <;> exact ⟨rfl, rfl⟩

/-- A pending transaction that applies is kept, one that throws leaves the objects
alone. -/
theorem pushPending_current (transaction : Tx) (database : Database hashing R) :
    (left (pushPending processing transaction database)).store.current =
      match (bodyStep (processing.applyTransaction transaction) database.store.current).eval
          database.store.current with
      | .ok _ reached => reached
      | .error _ _ => database.store.current := by
  unfold pushPending
  dsimp only
  rw [Script.run_open _ _ (by simp), UndoStore.start_current, openPending_current]
  cases (bodyStep (processing.applyTransaction transaction) database.store.current).eval
    database.store.current with
  | ok _ reached => simp [outcomeMap, left, squash_current]
  | error thrown reached => simp [outcomeMap, left, openPending_current]

theorem pushPending_frame (transaction : Tx) (database : Database hashing R) :
    (left (pushPending processing transaction database)).blockLog = database.blockLog ∧
      (left (pushPending processing transaction database)).forkDb = database.forkDb := by
  unfold pushPending
  dsimp only
  split <;> exact openPending_frame database

theorem restorePending_current (transactions : List Tx) (database : Database hashing R) :
    (restorePending processing transactions database).store.current =
      pendingState processing transactions database.store.current := by
  induction transactions generalizing database with
  | nil => rfl
  | cons transaction rest inductionHypothesis =>
    unfold restorePending pendingState
    split
    · exact inductionHypothesis database
    · rw [inductionHypothesis, pushPending_current]
      split <;> rfl

theorem restorePending_frame (transactions : List Tx) (database : Database hashing R) :
    (restorePending processing transactions database).blockLog = database.blockLog ∧
      (restorePending processing transactions database).forkDb = database.forkDb := by
  induction transactions generalizing database with
  | nil => exact ⟨rfl, rfl⟩
  | cons transaction rest inductionHypothesis =>
    unfold restorePending
    split
    · exact inductionHypothesis database
    · obtain ⟨log, forkDb⟩ := @pushPending_frame _ _ _ _ hashing processing transaction database
      exact ⟨(inductionHypothesis _).1.trans log, (inductionHypothesis _).2.trans forkDb⟩

/-- Pending transactions do not reach the core. -/
theorem pendingState_core (transactions : List Tx) (state : ChainState Id R) :
    (pendingState processing transactions state).core = state.core := by
  induction transactions generalizing state with
  | nil => rfl
  | cons transaction rest inductionHypothesis =>
    unfold pendingState
    split
    · exact inductionHypothesis state
    · split
      · rename_i reached done
        rw [inductionHypothesis, core_of_bodyStep done]
      · exact inductionHypothesis state

theorem finishPush_current (pending : List Tx) (database : Database hashing R) :
    (finishPush processing pending database).store.current =
      pendingState processing pending
        (pendingState processing database.poppedTx database.store.current) := by
  unfold finishPush
  rw [restorePending_current, restorePending_current]

theorem finishPush_core (pending : List Tx) (database : Database hashing R) :
    (finishPush processing pending database).core = database.core := by
  rw [core, finishPush_current, pendingState_core, pendingState_core]
  rfl

theorem finishPush_blockLog (pending : List Tx) (database : Database hashing R) :
    (finishPush processing pending database).blockLog = database.blockLog := by
  unfold finishPush
  rw [(restorePending_frame _ _).1]
  exact (restorePending_frame _ _).1

theorem finishPush_forkDb (pending : List Tx) (database : Database hashing R) :
    (finishPush processing pending database).forkDb = database.forkDb.pin [] := by
  unfold finishPush
  rw [(restorePending_frame _ _).2]
  exact (restorePending_frame _ _).2

end Pending

section Blocks

variable [DecidableEq Id] {processing : Processing Id Tx H R} {block : Block Id Tx H}
  {database : Database hashing R}

/-- A block that throws before the commit leaves the node as it was. -/
theorem tryBlock_unprepared {thrown : ChainError} {state : ChainState Id R}
    (throws : prepared hashing processing block database.store.current = .error thrown state) :
    tryBlock processing block database = .error thrown database := by
  unfold tryBlock applyBlock runSteps
  rw [runAll_open _ _ (by simp), UndoStore.start_current]
  rw [prepared] at throws
  simp [throws, outcomeMap, andThen]

/-- A block whose own session survives the commit. -/
theorem tryBlock_open {state : ChainState Id R}
    (prepares : prepared hashing processing block database.store.current = .ok () state)
    (survives : (state.core.lastIrreversibleBlockNum : Int) ≤ database.store.revision) :
    tryBlock processing block database =
      match writeLog database.forkDb
          (state.core.lastIrreversibleBlockNum - database.blockLog.blocks.length)
          database.blockLog with
      | .error thrown log =>
        .error thrown { database with
          store := database.store.commit state.core.lastIrreversibleBlockNum
          blockLog := log }
      | .ok _ log =>
        match finished hashing processing block state with
        | .error thrown _ =>
          .error thrown { database with
            store := database.store.commit state.core.lastIrreversibleBlockNum
            blockLog := log
            forkDb := database.forkDb.setMaxSize hashing
              (state.core.headBlockNumber - state.core.lastIrreversibleBlockNum + 1) }
        | .ok _ reached =>
          .ok () { database with
            store := (database.store.commit state.core.lastIrreversibleBlockNum).start.put reached
            blockLog := log
            forkDb := database.forkDb.setMaxSize hashing
              (state.core.headBlockNumber - state.core.lastIrreversibleBlockNum + 1) } := by
  unfold tryBlock applyBlock runSteps
  rw [runAll_open _ _ (by simp), UndoStore.start_current]
  rw [prepared] at prepares
  simp only [prepares, outcomeMap, andThen, settleIrreversible, core, UndoStore.put_current]
  rw [commit_put_start state survives]
  cases writeLog database.forkDb
      (state.core.lastIrreversibleBlockNum - database.blockLog.blocks.length)
      database.blockLog with
  | error thrown log => simp
  | ok _ log =>
    dsimp only
    rw [runAll_open _ _ (by simp), UndoStore.put_current]
    unfold finished
    cases evalAll (finishSteps hashing processing block) state with
    | ok _ reached => simp [outcomeMap]
    | error thrown reached => simp [outcomeMap]

/-- A block that becomes irreversible itself: its own session is committed, and nothing
it did is undone. -/
theorem tryBlock_closed {state : ChainState Id R}
    (prepares : prepared hashing processing block database.store.current = .ok () state)
    (committed : database.store.revision < (state.core.lastIrreversibleBlockNum : Int)) :
    tryBlock processing block database =
      match writeLog database.forkDb
          (state.core.lastIrreversibleBlockNum - database.blockLog.blocks.length)
          database.blockLog with
      | .error thrown log =>
        .error thrown { database with
          store := { current := state, saved := [], revision := database.store.revision + 1 }
          blockLog := log }
      | .ok _ log =>
        outcomeMap (fun reached => { database with
          store := UndoStore.mk reached [] (database.store.revision + 1 +
            completedAll (finishSteps hashing processing block) state)
          blockLog := log
          forkDb := database.forkDb.setMaxSize hashing
            (state.core.headBlockNumber - state.core.lastIrreversibleBlockNum + 1) })
          (finished hashing processing block state) := by
  unfold tryBlock applyBlock runSteps
  rw [runAll_open _ _ (by simp), UndoStore.start_current]
  rw [prepared] at prepares
  simp only [prepares, outcomeMap, andThen, settleIrreversible, core, UndoStore.put_current]
  rw [commit_put_start_closed state committed]
  cases writeLog database.forkDb
      (state.core.lastIrreversibleBlockNum - database.blockLog.blocks.length)
      database.blockLog with
  | error thrown log => simp [UndoStore.undo]
  | ok _ log =>
    dsimp only
    rw [runAll_closed _ _ rfl]
    unfold finished
    cases evalAll (finishSteps hashing processing block) state with
    | ok _ reached => simp [outcomeMap, UndoStore.bump, UndoStore.put]
    | error thrown reached => simp [outcomeMap, UndoStore.bump, UndoStore.put, UndoStore.undo]

/-- What an applied block has gone through. -/
theorem tryBlock_ok {reached : Database hashing R}
    (done : tryBlock processing block database = .ok () reached) :
    ∃ state, prepared hashing processing block database.store.current = .ok () state ∧
      finished hashing processing block state = .ok () reached.store.current ∧
      reached.core.lastIrreversibleBlockNum = state.core.lastIrreversibleBlockNum ∧
      writeLog database.forkDb
          (state.core.lastIrreversibleBlockNum - database.blockLog.blocks.length)
          database.blockLog = .ok () reached.blockLog ∧
      reached.forkDb = database.forkDb.setMaxSize hashing
        (state.core.headBlockNumber - state.core.lastIrreversibleBlockNum + 1) := by
  cases prepares : prepared hashing processing block database.store.current with
  | error thrown state =>
    rw [tryBlock_unprepared prepares] at done
    cases done
  | ok _ state =>
    have kept := finished_core hashing processing block state
    rcases Int.lt_or_le database.store.revision (state.core.lastIrreversibleBlockNum : Int)
      with lost | survives
    · rw [tryBlock_closed prepares lost] at done
      split at done
      · cases done
      · rename_i log wrote
        cases finishes : finished hashing processing block state with
        | error thrown after =>
          rw [finishes] at done
          cases done
        | ok _ after =>
          rw [finishes] at done
          rw [finishes, left] at kept
          cases done
          exact ⟨state, rfl, finishes, by rw [core, kept], wrote, rfl⟩
    · rw [tryBlock_open prepares survives] at done
      split at done
      · cases done
      · rename_i log wrote
        split at done
        · cases done
        · rename_i after finishes
          rw [finishes, left] at kept
          cases done
          exact ⟨state, rfl, finishes, by rw [core, UndoStore.put_current, kept], wrote, rfl⟩

/-- The head after an applied block is that block. -/
theorem tryBlock_head {reached : Database hashing R}
    (done : tryBlock processing block database = .ok () reached) :
    reached.core.headBlockId = hashing.id block := by
  obtain ⟨state, prepares, finishes, _⟩ := tryBlock_ok done
  obtain ⟨_, _, _, num, _, raised⟩ := prepared_ok prepares
  have kept := finished_core hashing processing block state
  rw [finishes, left] at kept
  rw [core, kept, raised]
  rfl

/-- However a push ends, its last step restores the pending transactions. -/
theorem left_pushBlock (processing : Processing Id Tx H R) (block : Block Id Tx H)
    (database : Database hashing R) :
    left (pushBlock processing block database) =
      finishPush processing database.pendingTx
        (left (pushUnprotected processing block database.clearPending)) := by
  unfold pushBlock
  cases pushUnprotected processing block database.clearPending <;> rfl

/-- On success the two loops over a branch do the same. -/
theorem restoreBranch_ok {items : List (ForkItem Id Tx H)} {reached : Database hashing R}
    (done : restoreBranch processing items database = .ok () reached) :
    pushBranch processing items database = .ok () reached := by
  induction items generalizing database with
  | nil =>
    simp only [restoreBranch, EStateM.Result.ok.injEq, true_and] at done
    simp only [pushBranch, done]
  | cons item rest inductionHypothesis =>
    obtain ⟨middle, tried, later⟩ := andThen_ok.mp done
    simp only [pushBranch, tried]
    exact inductionHypothesis later

/-- The head after an applied branch is its last block. -/
theorem pushBranch_head {items : List (ForkItem Id Tx H)} {last : ForkItem Id Tx H}
    {reached : Database hashing R}
    (done : pushBranch processing (items ++ [last]) database = .ok () reached) :
    reached.core.headBlockId = hashing.id last.block := by
  induction items generalizing database with
  | nil =>
    simp only [List.nil_append, pushBranch] at done
    split at done
    · rename_i middle tried
      cases done
      exact tryBlock_head tried
    · cases done
  | cons item rest inductionHypothesis =>
    simp only [List.cons_append, pushBranch] at done
    split at done
    · exact inductionHypothesis done
    · cases done

end Blocks

end Database

end DeipChain.Chain
