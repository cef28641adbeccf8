import DeipChain.Chain.Anchor

/-!
# Irreversible blocks over whole runs

In a run of smooth pushes the log is a prefix of the applied chain, the blocks up to the
last irreversible one stay where they are, and every height is found under the id of the
block applied there.
-/
namespace DeipChain.Chain

open Snapshots

variable {Id Tx H R : Type} {hashing : Hashing Id Tx H}

namespace Database

/-- The log holds the first blocks of the chain, and every height of the chain is found
under the id of its block. -/
structure LogHolds (chain : List (Block Id Tx H)) (database : Database hashing R) : Prop where
  log : ∀ position block, database.blockLog.blocks[position]? = some block →
    blockAt chain (position + 1) = some block
  ids : ∀ num, 0 < num → num ≤ database.core.headBlockNumber →
    ∃ block, blockAt chain num = some block ∧ database.findBlockIdForNum num = hashing.id block

/-- A log of blocks of a chain is its lower end. -/
theorem blockAt_of_faithful {chain : List (Block Id Tx H)} {log : BlockLog hashing}
    (linked : IsChain hashing chain) (faithful : ∀ block ∈ log.blocks, block ∈ chain)
    {position : Nat} {block : Block Id Tx H} (found : log.blocks[position]? = some block) :
    blockAt chain (position + 1) = some block := by
  rw [← log.numbered position block found]
  exact blockAt_num linked (faithful block (List.mem_of_getElem? found))

/-- A recent height is in the buffer of ids, and an older one is in the log. -/
theorem findBlockIdForNum_applied {chain : List (Block Id Tx H)} {database : Database hashing R}
    (reached : Reached hashing chain database.core)
    (faithful : ∀ block ∈ database.blockLog.blocks, block ∈ chain)
    (logged : database.core.lastIrreversibleBlockNum ≤ database.blockLog.blocks.length)
    {num : Nat} {block : Block Id Tx H} (found : blockAt chain num = some block) :
    database.findBlockIdForNum num = hashing.id block := by
  obtain ⟨positive, within⟩ := blockAt_height found
  have named : hashing.numFromId (hashing.id block) = num := by
    rw [hashing.numFromId_id]
    exact num_of_blockAt reached.linked found
  unfold findBlockIdForNum
  rw [if_neg (by omega)]
  dsimp only
  by_cases near : chain.length < num + summarySize
  · rw [reached.recent num block found near, Option.getD_some, if_pos named]
  · -- the entry belongs to the newest block whose height has the same remainder
    have window := reached.window
    have sizes : maxUndoHistory < summarySize := by decide
    have shifted : ∃ later, num < later ∧ later ≤ chain.length ∧
        chain.length < later + summarySize ∧ later % summarySize = num % summarySize := by
      refine ⟨chain.length - (chain.length - num) % summarySize, ?_, ?_, ?_, ?_⟩ <;>
        (unfold summarySize at near ⊢; omega)
    obtain ⟨later, above, top, recent, remainder⟩ := shifted
    obtain ⟨other, foundLater⟩ := blockAt_of_le (by omega) top
    have entry := reached.recent later other foundLater recent
    have numLater : hashing.numFromId (hashing.id other) = later := by
      rw [hashing.numFromId_id]
      exact num_of_blockAt reached.linked foundLater
    rw [remainder] at entry
    rw [entry, Option.getD_some, if_neg (by rw [numLater]; omega)]
    have inLog : num - 1 < database.blockLog.blocks.length := by omega
    have present := List.getElem?_eq_getElem inLog
    have same := blockAt_of_faithful reached.linked faithful present
    rw [Nat.sub_add_cancel positive, found] at same
    rw [BlockLog.readBlockByNum, if_neg (by omega), present, Option.some.inj same]

theorem clearPending_frame (database : Database hashing R) :
    database.clearPending.blockLog = database.blockLog ∧
      database.clearPending.forkDb = database.forkDb := by
  unfold clearPending resetPendingSession
  split <;> exact ⟨rfl, rfl⟩

/-- A pending transaction does not reach the core. -/
theorem pushPending_core {processing : Processing Id Tx H R} (transaction : Tx)
    (database : Database hashing R) :
    (left (pushPending processing transaction database)).core = database.core := by
  rw [core, pushPending_current]
  split
  · rename_i reached done
    exact core_of_bodyStep done
  · rfl

variable [DecidableEq Id] (processing : Processing Id Tx H R)

/-- The objects below the pending session are those after the chain. -/
def AppliedChain (genesis : R) (chain : List (Block Id Tx H)) (database : Database hashing R) :
    Prop :=
  stateAfter hashing processing genesis chain = some database.clearPending.store.current

/-- A run in which every push is smooth. -/
def smoothRun : List (Call Id Tx H) → Database hashing R → Bool
  | [], _ => true
  | .pushBlock block :: rest, database =>
    smooth processing block database.clearPending &&
      smoothRun rest (afterCall processing (.pushBlock block) database)
  | .pushTransaction transaction :: rest, database =>
    smoothRun rest (afterCall processing (.pushTransaction transaction) database)

/-- The node between two calls, with the pending transactions set apart. -/
structure Quiescent (genesis : R) (chain : List (Block Id Tx H)) (committed : Nat)
    (database : Database hashing R) : Prop where
  resting : Resting processing genesis chain committed database.clearPending
  opened : PendingOpen database
  core : database.core = database.clearPending.core

variable {processing} {genesis : R} {chain : List (Block Id Tx H)} {committed : Nat}
  {database reached : Database hashing R}

/-- Resting is about the store, the log and the fork database without its local
pointers. -/
theorem Resting.of_parts (resting : Resting processing genesis chain committed database)
    (store : reached.store = database.store) (log : reached.blockLog = database.blockLog)
    (forkDb : reached.forkDb = database.forkDb ∨ reached.forkDb = database.forkDb.pin [])
    (idle : reached.pendingSession = false) :
    Resting processing genesis chain committed reached := by
  obtain ⟨anchored, level, headless, _⟩ := resting
  have wired : reached.forkDb.Wired hashing := by
    rcases forkDb with same | same
    · exact same ▸ anchored.wired
    · exact same ▸ anchored.wired.pin (List.nil_subset _)
  have index : reached.forkDb.index = database.forkDb.index := by
    rcases forkDb with same | same <;> rw [same]
    rfl
  have head : reached.forkDb.head = database.forkDb.head := by
    rcases forkDb with same | same <;> rw [same]
    rfl
  have cached : ∀ block, database.forkDb.Cached block → reached.forkDb.Cached block :=
    fun block ⟨item, indexed, same⟩ => ⟨item, index ▸ indexed, same⟩
  refine ⟨⟨store ▸ anchored.tracked, anchored.lower, anchored.linked, ?_, log ▸ anchored.logged,
    log ▸ anchored.faithful, wired, ?_, ?_⟩, ?_, ?_, idle⟩
  · rw [core, store]
    exact anchored.irreversible
  · exact fun block member above => cached block (anchored.cached block member above)
  · exact fun top same => cached _ (anchored.headCached top (head ▸ same))
  · rw [index]
    exact level
  · rw [head, index]
    exact headless

/-- One call of a smooth run. -/
theorem afterCall_quiescent {call : Call Id Tx H} {rest : List (Call Id Tx H)}
    (quiescent : Quiescent processing genesis chain committed database)
    (smoothly : smoothRun processing (call :: rest) database = true) :
    ∃ next raised, Quiescent processing genesis next raised (afterCall processing call database) ∧
      committed ≤ raised ∧ AgreeBelow committed chain next ∧
      smoothRun processing rest (afterCall processing call database) = true := by
  cases call with
  | pushTransaction transaction =>
    obtain ⟨settled, stacked⟩ :=
      @pushPending_settled _ _ _ _ _ processing _ transaction quiescent.opened
    obtain ⟨log, forkDb⟩ := @pushPending_frame _ _ _ _ hashing processing transaction database
    refine ⟨chain, committed, ⟨?_, stacked, ?_⟩, Nat.le_refl _, fun _ _ => rfl, smoothly⟩
    · refine quiescent.resting.of_parts settled ?_ (.inl ?_) (clearPending_idle _)
      · rw [(clearPending_frame _).1, (clearPending_frame _).1]
        exact log
      · rw [(clearPending_frame _).2, (clearPending_frame _).2]
        exact forkDb
    · have kept := @pushPending_core _ _ _ _ hashing processing transaction database
      refine kept.trans (quiescent.core.trans ?_)
      rw [core, core]
      exact congrArg (fun store => store.current.core) settled.symm
  | pushBlock block =>
    obtain ⟨smoothly, later⟩ := Bool.and_eq_true_iff.mp smoothly
    obtain ⟨next, raised, resting, higher, agree⟩ :=
      pushUnprotected_resting quiescent.resting smoothly
    have finish : afterCall processing (.pushBlock block) database =
        finishPush processing database.pendingTx
          (left (pushUnprotected processing block database.clearPending)) :=
      left_pushBlock processing block database
    obtain ⟨settled, stacked⟩ :=
      @finishPush_settled _ _ _ _ _ processing _ database.pendingTx resting.idle
    refine ⟨next, raised, ⟨?_, finish ▸ stacked, ?_⟩, higher, agree, later⟩
    · rw [finish]
      refine resting.of_parts settled ?_ (.inr ?_) (clearPending_idle _)
      · rw [(clearPending_frame _).1, finishPush_blockLog]
      · rw [(clearPending_frame _).2, finishPush_forkDb]
    · rw [finish, finishPush_core, core, core]
      exact congrArg (fun store => store.current.core) settled.symm

/-- A smooth run keeps the node at rest and the chain where it was committed. -/
theorem afterCalls_quiescent (calls : List (Call Id Tx H))
    (quiescent : Quiescent processing genesis chain committed database)
    (smoothly : smoothRun processing calls database = true) :
    ∃ next raised, Quiescent processing genesis next raised
        (afterCalls processing calls database) ∧
      committed ≤ raised ∧ AgreeBelow committed chain next := by
  induction calls generalizing database chain committed with
  | nil => exact ⟨chain, committed, quiescent, Nat.le_refl _, fun _ _ => rfl⟩
  | cons call rest inductionHypothesis =>
    obtain ⟨middle, between, step, higher, agree, later⟩ :=
      afterCall_quiescent quiescent smoothly
    obtain ⟨next, raised, final, highest, agreeNext⟩ := inductionHypothesis step later
    exact ⟨next, raised, final, Nat.le_trans higher highest, fun at_ low =>
      (agreeNext at_ (Nat.le_trans low higher)).trans (agree at_ low)⟩

theorem smoothRun_append (calls more : List (Call Id Tx H)) (database : Database hashing R) :
    smoothRun processing (calls ++ more) database =
      (smoothRun processing calls database &&
        smoothRun processing more (afterCalls processing calls database)) := by
  induction calls generalizing database with
  | nil => rfl
  | cons call rest inductionHypothesis =>
    cases call with
    | pushBlock block =>
      simp only [List.cons_append, smoothRun, afterCalls, inductionHypothesis, Bool.and_assoc]
    | pushTransaction transaction =>
      simp only [List.cons_append, smoothRun, afterCalls, inductionHypothesis]

theorem afterCalls_append (calls more : List (Call Id Tx H)) (database : Database hashing R) :
    afterCalls processing (calls ++ more) database =
      afterCalls processing more (afterCalls processing calls database) := by
  induction calls generalizing database with
  | nil => rfl
  | cons call rest inductionHypothesis => exact inductionHypothesis _

theorem quiescent_genesis (processing : Processing Id Tx H R) (genesis : R) :
    Quiescent processing genesis [] 0 (Database.genesis hashing genesis) where
  resting := by
    refine ⟨⟨tracked_genesis hashing processing genesis, ⟨[], rfl⟩, trivial, Nat.le_refl _, rfl,
      ?_, ?_, ?_, ?_⟩, ?_, fun _ => rfl, rfl⟩
    · intro block member
      cases member
    · exact ForkDatabase.wired_empty
    · intro block member
      cases member
    · intro head top
      cases top
    · intro item indexed
      cases indexed
  opened session := by simp [Database.genesis] at session
  core := rfl

/-- The node at rest has written a faithful log. -/
theorem Quiescent.logHolds (quiescent : Quiescent processing genesis chain committed database) :
    LogHolds chain database := by
  obtain ⟨⟨anchored, _, _, _⟩, _, sameCore⟩ := quiescent
  have reachedCore : Reached hashing chain database.core := by
    rw [sameCore]
    exact anchored.tracked.reached
  have log := (clearPending_frame database).1
  have faithful : ∀ block ∈ database.blockLog.blocks, block ∈ chain := log ▸ anchored.faithful
  have logged : database.core.lastIrreversibleBlockNum ≤ database.blockLog.blocks.length := by
    rw [sameCore, ← log, anchored.logged]
    exact anchored.irreversible
  refine ⟨fun position block found => blockAt_of_faithful reachedCore.linked faithful found,
    fun num positive within => ?_⟩
  obtain ⟨block, found⟩ := blockAt_of_le positive (reachedCore.number ▸ within)
  exact ⟨block, found, findBlockIdForNum_applied reachedCore faithful logged found⟩

/-- At every point of a smooth run the log is a prefix of the applied chain and every
height is found under its block's id, and the rest of the run keeps the applied blocks up
to the last irreversible one. -/
theorem smooth_run_log_holds (processing : Processing Id Tx H R) (genesis : R)
    (calls more : List (Call Id Tx H))
    (smoothly : smoothRun processing (calls ++ more) (Database.genesis hashing genesis) = true) :
    ∃ chain later,
      AppliedChain processing genesis chain
        (afterCalls processing calls (Database.genesis hashing genesis)) ∧
      AppliedChain processing genesis later
        (afterCalls processing (calls ++ more) (Database.genesis hashing genesis)) ∧
      LogHolds chain (afterCalls processing calls (Database.genesis hashing genesis)) ∧
      AgreeBelow (afterCalls processing calls
        (Database.genesis hashing genesis)).core.lastIrreversibleBlockNum chain later := by
  rw [smoothRun_append, Bool.and_eq_true] at smoothly
  obtain ⟨chain, committed, quiescent, _, _⟩ :=
    afterCalls_quiescent calls (quiescent_genesis processing genesis) smoothly.1
  obtain ⟨later, raised, final, _, agree⟩ := afterCalls_quiescent more quiescent smoothly.2
  rw [afterCalls_append]
  refine ⟨chain, later, quiescent.resting.anchored.tracked.lineage.replayed,
    final.resting.anchored.tracked.lineage.replayed, quiescent.logHolds, fun at_ low => ?_⟩
  refine agree at_ (Nat.le_trans low ?_)
  rw [quiescent.core]
  exact quiescent.resting.anchored.irreversible

end Database

/-!
## A chain on which only the signatures are checked

The blocks of the runs below carry no transactions, and their header says whether the
block is signed by its witness.
-/

namespace SignedChain

/-- The steps of the chain: a block that is not signed is rejected. -/
def processing : Processing (List (Entry Unit Bool)) Unit Bool Unit where
  merkleMatches _ := true
  beginBlock block _ _ := if block.header then .done else .throw (.rejected "validate_signee")
  applyTransaction _ _ _ := .done
  updateGlobalDynamicData _ _ _ := .done
  updateSigningWitness _ _ _ := .done
  currentShuffledWitnesses _ := ["alice", "bob"]
  clearExpiredTransactions _ _ := .done
  clearExpiredRecentEntities _ _ _ := .done
  clearExpiredProposals _ _ := .done
  clearExpiredDisciplineSupplies _ _ := .done
  updateWitnessSchedule _ _ := .done
  processResearchTokenSales _ _ := .done
  processFunds _ _ := .done
  processCommonTokensWithdrawals _ _ := .done
  processAccountRecovery _ _ := .done
  processHardforks _ _ := .done
  processDisciplineSupplies _ _ := .done
  processExpertiseAllocationProposals _ _ := .done
  processNdaContracts _ _ := .done
  notifyAppliedBlock _ _ _ := .done
  isKnownTransaction _ _ := false

/-- The node on a new data directory. -/
def node : Database (Hashing.spelled Unit Bool) Unit :=
  Database.genesis (Hashing.spelled Unit Bool) ()

/-- A branch of signed blocks of one witness, on top of what is below. -/
def branch (witness : String) : Nat → List (Entry Unit Bool) → List (Entry Unit Bool)
  | 0, below => below
  | length + 1, below => (witness, [], true) :: branch witness length below

/-- The newest block of a chain of contents, pushed. -/
def push : List (Entry Unit Bool) → Database.Call (List (Entry Unit Bool)) Unit Bool
  | [] => .pushBlock (Entry.block ("", [], false) [])
  | entry :: below => .pushBlock (entry.block below)

/-- A branch pushed from its oldest block above `below` on. -/
def pushes (witness : String) (below : List (Entry Unit Bool)) (length : Nat) :
    List (Database.Call (List (Entry Unit Bool)) Unit Bool) :=
  (List.range length).map (fun position => push (branch witness (position + 1) below))

/-- A side branch, a switch to it, and a block on top. -/
theorem switched_run_log_holds :
    ∃ chain later,
      Database.AppliedChain processing () chain
        (Database.afterCalls processing (pushes "alice" [] 1 ++ pushes "bob" [] 2) node) ∧
      Database.AppliedChain processing () later
        (Database.afterCalls processing
          ((pushes "alice" [] 1 ++ pushes "bob" [] 2) ++ [push (branch "bob" 3 [])]) node) ∧
      Database.LogHolds chain
        (Database.afterCalls processing (pushes "alice" [] 1 ++ pushes "bob" [] 2) node) ∧
      AgreeBelow (Database.afterCalls processing (pushes "alice" [] 1 ++ pushes "bob" [] 2)
        node).core.lastIrreversibleBlockNum chain later :=
  Database.smooth_run_log_holds processing () (pushes "alice" [] 1 ++ pushes "bob" [] 2)
    [push (branch "bob" 3 [])] (by decide +kernel)

/-- Block 1 of another branch stays lone at its height: after block 3 is rejected, pushing
block 1 again fails and takes it out of the fork database. -/
def misloggedRun : List (Database.Call (List (Entry Unit Bool)) Unit Bool) :=
  pushes "alice" [] 2 ++ pushes "bob" [] 1 ++
    [push (("alice", [], false) :: branch "alice" 2 []), push (branch "alice" 1 [])] ++
    pushes "alice" (branch "alice" 2 []) 20

/-- The log then gets the block of the other branch, which was never applied. -/
theorem mislogged_run_fails :
    ¬ ∃ chain, Database.AppliedChain processing () chain
        (Database.afterCalls processing misloggedRun node) ∧
      Database.LogHolds chain (Database.afterCalls processing misloggedRun node) := by
  rintro ⟨chain, _, holds⟩
  have logged : (Database.afterCalls processing misloggedRun node).blockLog.blocks[0]? =
      some (Entry.block ("bob", [], true) []) := by decide +kernel
  have head : 1 ≤ (Database.afterCalls processing misloggedRun node).core.headBlockNumber := by
    decide +kernel
  have applied : (Database.afterCalls processing misloggedRun node).findBlockIdForNum 1 =
      branch "alice" 1 [] := by decide +kernel
  have inLog := holds.log 0 _ logged
  obtain ⟨block, found, id⟩ := holds.ids 1 (Nat.le_refl _) head
  rw [inLog] at found
  cases found
  rw [applied] at id
  exact absurd id (by decide)

end SignedChain

end DeipChain.Chain
