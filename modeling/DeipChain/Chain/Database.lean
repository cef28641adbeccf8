import DeipChain.Chain.ForkDatabase

/-!
# The node: pushing a block

`Database` holds what `push_block` reads and writes: the object store with its undo
history, the fork database, the block log, and the pending and popped transactions.
An exception leaves the members as they are at the throw, after the destructors of the
sessions and of the pending transactions restorer have run.

Left out are the checkpoints (none are set), the skip flags (none are given), the
flushing of the shared memory file and the notifications of the plugins.
-/
namespace DeipChain.Chain

open Snapshots

variable {Id Tx H R : Type}

/-- The block log: block `k` stands at position `k`. -/
structure BlockLog (hashing : Hashing Id Tx H) where
  blocks : List (Block Id Tx H)
  numbered : ∀ position block, blocks[position]? = some block → hashing.num block = position + 1

namespace BlockLog

variable {hashing : Hashing Id Tx H}

/-- A log without blocks. -/
def empty : BlockLog hashing := ⟨[], by simp⟩

/-- `append`: the position of the block is asserted. -/
def append (block : Block Id Tx H) (log : BlockLog hashing) : Option (BlockLog hashing) :=
  if expected : hashing.num block = log.blocks.length + 1 then
    some ⟨log.blocks ++ [block], by
      intro position other found
      rcases Nat.lt_or_ge position log.blocks.length with inside | outside
      · rw [List.getElem?_append_left inside] at found
        exact log.numbered position other found
      · rw [List.getElem?_append_right outside] at found
        obtain ⟨bound, same⟩ := List.getElem?_eq_some_iff.mp found
        simp only [List.length_singleton] at bound
        simp only [List.getElem_singleton] at same
        rw [← same, expected]
        omega⟩
  else none

/-- `read_block_by_num` -/
def readBlockByNum (num : Nat) (log : BlockLog hashing) : Option (Block Id Tx H) :=
  if num = 0 then none else log.blocks[num - 1]?

end BlockLog

/-- `database` -/
structure Database (hashing : Hashing Id Tx H) (R : Type) where
  store : UndoStore (ChainState Id R)
  forkDb : ForkDatabase Id Tx H
  blockLog : BlockLog hashing
  pendingTx : List Tx
  pendingSession : Bool
  poppedTx : List Tx

namespace Database

variable {hashing : Hashing Id Tx H}

/-- A node opened on a new data directory. -/
def genesis (hashing : Hashing Id Tx H) (body : R) : Database hashing R :=
  { store := { current := { core := Core.genesis hashing, body := body }, saved := [], revision := 0 }
    forkDb := .empty
    blockLog := .empty
    pendingTx := []
    pendingSession := false
    poppedTx := [] }

/-- The core of the object store. -/
def core (database : Database hashing R) : Core Id := database.store.current.core

/-- `_pending_tx_session.reset()` -/
def resetPendingSession (database : Database hashing R) : Database hashing R :=
  if database.pendingSession then
    { database with store := database.store.undo, pendingSession := false }
  else database

/-- `clear_pending` -/
def clearPending (database : Database hashing R) : Database hashing R :=
  { database.resetPendingSession with pendingTx := [] }

/-- The log loop of `update_last_irreversible_block`. -/
def writeLog (forkDb : ForkDatabase Id Tx H) : Nat → BlockLog hashing →
    Snapshots.Outcome ChainError (BlockLog hashing)
  | 0, log => .ok () log
  | count + 1, log =>
    match forkDb.fetchBlockOnMainBranchByNumber hashing (log.blocks.length + 1) with
    | none => .error .missingIrreversible log
    | some item =>
      match log.append item.block with
      | none => .error .logPosition log
      | some longer => writeLog forkDb count longer

/-- The second half of `update_last_irreversible_block`: the commit, the block log and
the size of the fork database. -/
def settleIrreversible (database : Database hashing R) :
    Snapshots.Outcome ChainError (Database hashing R) :=
  let irreversible := database.core.lastIrreversibleBlockNum
  let committed := { database with store := database.store.commit irreversible }
  match writeLog database.forkDb (irreversible - database.blockLog.blocks.length)
      database.blockLog with
  | .error thrown log => .error thrown { committed with blockLog := log }
  | .ok _ log =>
    .ok () { committed with
      blockLog := log
      forkDb := database.forkDb.setMaxSize hashing
        (database.core.headBlockNumber - irreversible + 1) }

/-- Programs on the object store of the node. -/
def runSteps (steps : List (Step (ChainState Id R) ChainError)) (database : Database hashing R) :
    Snapshots.Outcome ChainError (Database hashing R) :=
  outcomeMap (fun store => { database with store := store }) (runAll steps database.store)

section Pending

variable (processing : Processing Id Tx H R)

/-- The first transaction pushed after a block starts the pending session. -/
def openPending (database : Database hashing R) : Database hashing R :=
  if database.pendingSession then database
  else { database with store := database.store.start, pendingSession := true }

/-- `_push_transaction` -/
def pushPending (transaction : Tx) (database : Database hashing R) :
    Snapshots.Outcome ChainError (Database hashing R) :=
  let opened := database.openPending
  let script := bodyStep (processing.applyTransaction transaction)
  match (script opened.store.current).run opened.store.start with
  | .ok _ reached =>
    .ok () { opened with store := reached.squash, pendingTx := opened.pendingTx ++ [transaction] }
  | .error thrown reached => .error thrown { opened with store := reached.undo }

/-- The loops of `~pending_transactions_restorer`: a transaction that is known or that
throws is passed over. -/
def restorePending : List Tx → Database hashing R → Database hashing R
  | [], database => database
  | transaction :: rest, database =>
    if processing.isKnownTransaction transaction database.store.current.body then
      restorePending rest database
    else restorePending rest (left (pushPending processing transaction database))

end Pending

variable [DecidableEq Id] (processing : Processing Id Tx H R)

/-- `apply_block` -/
def applyBlock (block : Block Id Tx H) (database : Database hashing R) :
    Snapshots.Outcome ChainError (Database hashing R) :=
  andThen (runSteps (openingSteps processing block ++ headSteps hashing processing block) database)
    (fun headed => andThen headed.settleIrreversible
      (runSteps (finishSteps hashing processing block)))

/-- `apply_block` in a session that is pushed when it returns and undone when it
throws. -/
def tryBlock (block : Block Id Tx H) (database : Database hashing R) :
    Snapshots.Outcome ChainError (Database hashing R) :=
  match applyBlock processing block { database with store := database.store.start } with
  | .ok _ reached => .ok () reached
  | .error thrown reached => .error thrown { reached with store := reached.store.undo }

/-- `fetch_block_by_id` -/
def fetchBlockById (id : Id) (database : Database hashing R) : Option (Block Id Tx H) :=
  match database.forkDb.fetchBlock hashing id with
  | some item => some item.block
  | none =>
    match database.blockLog.readBlockByNum (hashing.numFromId id) with
    | some block => if hashing.id block = id then some block else none
    | none => none

/-- `pop_block` -/
def popBlock (database : Database hashing R) : Snapshots.Outcome ChainError (Database hashing R) :=
  let reset := database.resetPendingSession
  match reset.fetchBlockById reset.core.headBlockId with
  | none => .error .popEmptyChain reset
  | some headBlock =>
    match reset.forkDb.popBlock with
    | .error thrown => .error thrown reset
    | .ok forkDb =>
      .ok () { reset with
        forkDb := forkDb
        store := reset.store.undo
        poppedTx := headBlock.transactions ++ reset.poppedTx }

/-- `while (head_block_id() != previous) pop_block();` Every call moves the head of the
fork database one block down, so its number bounds the calls. -/
def popUntil (previous : Id) :
    Nat → Database hashing R → Snapshots.Outcome ChainError (Database hashing R)
  | 0, database =>
    if database.core.headBlockId = previous then .ok () database
    else .error .popEmptyForkDb database
  | fuel + 1, database =>
    if database.core.headBlockId = previous then .ok () database
    else andThen database.popBlock (popUntil previous fuel)

/-- The number of the fork database's head. -/
def forkHeadNum (database : Database hashing R) : Nat :=
  match database.forkDb.head with
  | some head => hashing.num head.block
  | none => 0

/-- The blocks of the new branch one after the other. A throw leaves the items from the
failed one on. -/
def pushBranch : List (ForkItem Id Tx H) → Database hashing R →
    EStateM.Result (ChainError × List (ForkItem Id Tx H)) (Database hashing R) Unit
  | [], database => .ok () database
  | item :: rest, database =>
    match tryBlock processing item.block database with
    | .ok _ reached => pushBranch rest reached
    | .error thrown reached => .error (thrown, item :: rest) reached

/-- The blocks of the old branch one after the other. -/
def restoreBranch : List (ForkItem Id Tx H) → Database hashing R →
    Snapshots.Outcome ChainError (Database hashing R)
  | [], database => .ok () database
  | item :: rest, database =>
    andThen (tryBlock processing item.block database) (restoreBranch rest)

/-- The id below the oldest block of the old branch, where the two branches meet. -/
def forkPoint (front : ForkItem Id Tx H) (second : List (ForkItem Id Tx H)) : Id :=
  ((front :: second).getLast (by simp)).block.previous

/-- Pop the old branch, with both branches held by the call. -/
def leaveBranch (newHead : ForkItem Id Tx H) (first : List (ForkItem Id Tx H))
    (front : ForkItem Id Tx H) (second : List (ForkItem Id Tx H)) (database : Database hashing R) :
    Snapshots.Outcome ChainError (Database hashing R) :=
  let held := { database with
    forkDb := database.forkDb.pin (newHead :: first ++ front :: second) }
  popUntil (forkPoint front second) held.forkHeadNum held

/-- Take the failed blocks out of the fork database and pop those that were applied. -/
def leaveFailed (failed : List (ForkItem Id Tx H)) (front : ForkItem Id Tx H)
    (second : List (ForkItem Id Tx H)) (database : Database hashing R) :
    Snapshots.Outcome ChainError (Database hashing R) :=
  let reset := { database with
    forkDb := (database.forkDb.removeItems hashing failed).setHead front }
  popUntil (forkPoint front second) reset.forkHeadNum reset

/-- The switch of `_push_block` to the branch of `newHead`. A block that fails is thrown
again after the old branch has been applied again. -/
def switchForks (newHead : ForkItem Id Tx H) (database : Database hashing R) :
    Snapshots.Outcome ChainError (Database hashing R) :=
  match database.forkDb.fetchBranchFrom hashing (hashing.id newHead.block)
      database.core.headBlockId with
  | some (first, front :: second) =>
    match leaveBranch newHead first front second database with
    | .error thrown reached => .error thrown reached
    | .ok _ popped =>
      match pushBranch processing first.reverse popped with
      | .ok _ switched => .ok () switched
      | .error (thrown, failed) reached =>
        match leaveFailed failed front second reached with
        | .error other stuck => .error other stuck
        | .ok _ back =>
          match restoreBranch processing (front :: second).reverse back with
          | .error other stuck => .error other stuck
          | .ok _ restored => .error thrown restored
  | _ => .error .branchMissing database

/-- `_push_block` -/
def pushUnprotected (block : Block Id Tx H) (database : Database hashing R) :
    EStateM.Result ChainError (Database hashing R) Bool :=
  match database.forkDb.pushBlock hashing block with
  | .error thrown => .error thrown database
  | .ok forkDb =>
    match forkDb.head with
    | none => .error .branchMissing database
    | some newHead =>
      let pushed := { database with forkDb := forkDb.pin [newHead] }
      if newHead.block.previous ≠ database.core.headBlockId then
        if hashing.num newHead.block > database.core.headBlockNumber then
          match switchForks processing newHead pushed with
          | .ok _ switched => .ok true switched
          | .error thrown reached => .error thrown reached
        else .ok false pushed
      else
        match tryBlock processing block pushed with
        | .ok _ reached => .ok false reached
        | .error thrown reached =>
          .error thrown { reached with
            forkDb := reached.forkDb.remove hashing (hashing.id block) }

/-- The end of `push_block`: its local pointers go, then the popped and the pending
transactions are pushed again. -/
def finishPush (pending : List Tx) (database : Database hashing R) : Database hashing R :=
  let unpinned := { database with forkDb := database.forkDb.pin [] }
  restorePending processing pending
    { restorePending processing unpinned.poppedTx unpinned with poppedTx := [] }

/-- `push_block` -/
def pushBlock (block : Block Id Tx H) (database : Database hashing R) :
    EStateM.Result ChainError (Database hashing R) Bool :=
  match pushUnprotected processing block database.clearPending with
  | .ok switched reached => .ok switched (finishPush processing database.pendingTx reached)
  | .error thrown reached => .error thrown (finishPush processing database.pendingTx reached)

/-- Blocks pushed one after the other, whether a push returns or throws. -/
def pushBlocks : List (Block Id Tx H) → Database hashing R → Database hashing R
  | [], database => database
  | block :: rest, database => pushBlocks rest (left (pushBlock processing block database))

/-- A call on the node. -/
inductive Call (Id Tx H : Type) where
  | pushBlock (block : Block Id Tx H)
  | pushTransaction (transaction : Tx)

/-- The node after one call, whether it returns or throws. -/
def afterCall : Call Id Tx H → Database hashing R → Database hashing R
  | .pushBlock block, database => left (pushBlock processing block database)
  | .pushTransaction transaction, database => left (pushPending processing transaction database)

/-- The node after a sequence of calls. -/
def afterCalls : List (Call Id Tx H) → Database hashing R → Database hashing R
  | [], database => database
  | call :: rest, database => afterCalls rest (afterCall processing call database)

/-- `find_block_id_for_num` -/
def findBlockIdForNum (num : Nat) (database : Database hashing R) : Id :=
  if num = 0 then hashing.null
  else
    let summary := database.core.blockSummary[num % summarySize]?.getD hashing.null
    if hashing.numFromId summary = num then summary
    else
      match database.blockLog.readBlockByNum num with
      | some block => hashing.id block
      | none =>
        match database.forkDb.fetchBlockOnMainBranchByNumber hashing num with
        | some item => hashing.id item.block
        | none => hashing.null

end Database

end DeipChain.Chain
