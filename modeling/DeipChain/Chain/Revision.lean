import DeipChain.Chain.Atomicity
import DeipChain.Chain.Lineage

/-!
# The revision and the undo stack over whole runs

When a node opens, it undoes every session and asserts that the revision is then the
height of the head. For that the undo stack has to hold one state for every block above
the last irreversible one. Each push keeps this as long as nothing the node has committed
is given up again: no block that raises the last irreversible block is thrown away, and a
switch of forks does not lower it. Besides that, no session may be completed between the
commit of a block's own session and the end of the block, since its squash would leave
the revision one too high.
-/
namespace DeipChain.Chain

open Snapshots

variable {Id Tx H R : Type} {hashing : Hashing Id Tx H} [DecidableEq Id]

namespace Database

/-- The undo stack holds one state for each block above the last irreversible one, and
undoing it all reaches the state right after that block. -/
def Rewindable (processing : Processing Id Tx H R) (genesis : R) (database : Database hashing R) :
    Prop :=
  ∃ chain, IsChain hashing chain ∧ tip hashing chain = database.core.headBlockId ∧
    database.store.revision = database.core.headBlockNumber ∧
    database.store.saved.length + database.core.lastIrreversibleBlockNum =
      database.core.headBlockNumber ∧
    (∀ position state, database.store.saved[position]? = some state →
      stateAfter hashing processing genesis (chain.drop (position + 1)) = some state) ∧
    stateAfter hashing processing genesis
        (chain.drop (chain.length - database.core.lastIrreversibleBlockNum)) =
      some database.store.undoAll.current ∧
    database.store.undoAll.revision = database.core.lastIrreversibleBlockNum

variable (processing : Processing Id Tx H R)

/-- `unsquashed` for every block of a branch that is tried. -/
def branchUnsquashed : List (ForkItem Id Tx H) → Database hashing R → Bool
  | [], _ => true
  | item :: rest, database =>
    unsquashed processing item.block database &&
      match tryBlock processing item.block database with
      | .ok _ reached => branchUnsquashed rest reached
      | .error _ _ => true

/-- `staysBelow` for every block of a branch that is tried. -/
def branchStaysBelow (limit : Nat) : List (ForkItem Id Tx H) → Database hashing R → Bool
  | [], _ => true
  | item :: rest, database =>
    staysBelow processing limit item.block database &&
      match tryBlock processing item.block database with
      | .ok _ reached => branchStaysBelow limit rest reached
      | .error _ _ => true

/-- A switch that keeps what is committed: the old branch can be popped, or nothing can.
A switch that succeeds does not lower the last irreversible block, one that fails has not
raised it and gets the old branch back. -/
def orderlySwitch (newHead : ForkItem Id Tx H) (database : Database hashing R) : Bool :=
  match database.forkDb.fetchBranchFrom hashing (hashing.id newHead.block)
      database.core.headBlockId with
  | some (first, front :: second) =>
    match leaveBranch newHead first front second database with
    | .error _ _ => database.store.saved.isEmpty
    | .ok _ popped =>
      match pushBranch processing first.reverse popped with
      | .ok _ switched =>
        branchUnsquashed processing first.reverse popped &&
          database.core.lastIrreversibleBlockNum ≤ switched.core.lastIrreversibleBlockNum
      | .error (_, failed) reached =>
        branchStaysBelow processing database.core.lastIrreversibleBlockNum first.reverse popped &&
          match leaveFailed failed front second reached with
          | .error _ _ => false
          | .ok _ back =>
            branchUnsquashed processing (front :: second).reverse back &&
              (thrownBy (restoreBranch processing (front :: second).reverse back)).isNone
  | _ => true

/-- A push that keeps what is committed. -/
def orderly (block : Block Id Tx H) (database : Database hashing R) : Bool :=
  match database.forkDb.pushBlock hashing block with
  | .error _ => true
  | .ok forkDb =>
    match forkDb.head with
    | none => true
    | some newHead =>
      let pushed := { database with forkDb := forkDb.pin [newHead] }
      if newHead.block.previous ≠ database.core.headBlockId then
        if hashing.num newHead.block > database.core.headBlockNumber then
          orderlySwitch processing newHead pushed
        else true
      else
        match tryBlock processing block pushed with
        | .ok _ _ => unsquashed processing block pushed
        | .error _ _ => staysBelow processing database.core.lastIrreversibleBlockNum block pushed

/-- A run in which every block is pushed in an orderly way. -/
def orderlyRun : List (Call Id Tx H) → Database hashing R → Bool
  | [], _ => true
  | .pushBlock block :: rest, database =>
    orderly processing block database.clearPending &&
      orderlyRun rest (afterCall processing (.pushBlock block) database)
  | .pushTransaction transaction :: rest, database =>
    orderlyRun rest (afterCall processing (.pushTransaction transaction) database)

/-- The store without the pending session holds a chain down to its last irreversible
block. -/
def Steady (genesis : R) (database : Database hashing R) : Prop :=
  database.pendingSession = false ∧
    ∃ chain, Tracked hashing processing genesis chain database.core.lastIrreversibleBlockNum
      database.store

variable {processing} {genesis : R} {database reached : Database hashing R}
  {chain : List (Block Id Tx H)} {committed : Nat} {items : List (ForkItem Id Tx H)}

/-- A branch that applies becomes the top of the chain. -/
theorem pushBranch_tracked
    (tracked : Tracked hashing processing genesis chain committed database.store)
    (below : database.core.lastIrreversibleBlockNum ≤ committed)
    (quiet : branchUnsquashed processing items database = true)
    (done : pushBranch processing items database = .ok () reached) :
    Tracked hashing processing genesis ((items.map ForkItem.block).reverse ++ chain)
        (max committed reached.core.lastIrreversibleBlockNum) reached.store ∧
      database.core.lastIrreversibleBlockNum ≤ reached.core.lastIrreversibleBlockNum ∧
      reached.pendingSession = database.pendingSession := by
  induction items generalizing database chain committed with
  | nil =>
    simp only [pushBranch, EStateM.Result.ok.injEq, true_and] at done
    subst done
    exact ⟨by simpa [Nat.max_eq_left below] using tracked, Nat.le_refl _, rfl⟩
  | cons item rest inductionHypothesis =>
    obtain ⟨quiet, later⟩ := Bool.and_eq_true_iff.mp quiet
    unfold pushBranch at done
    have frame := tryBlock_frame processing item.block database
    cases tried : tryBlock processing item.block database with
    | error thrown middle =>
      rw [tried] at done
      cases done
    | ok _ middle =>
      rw [tried] at done later frame
      obtain ⟨next, raised⟩ := tryBlock_tracked tracked quiet tried
      obtain ⟨final, higher, idle⟩ :=
        inductionHypothesis next (Nat.le_max_right _ _) later done
      refine ⟨?_, Nat.le_trans raised higher, idle.trans frame.1⟩
      rw [Nat.max_assoc, Nat.max_eq_right higher] at final
      simpa using final

/-- A branch that fails without raising the committed height leaves a chain with the same
history. -/
theorem pushBranch_failed {thrown : ChainError} {failed : List (ForkItem Id Tx H)}
    (tracked : Tracked hashing processing genesis chain committed database.store)
    (below : database.core.lastIrreversibleBlockNum ≤ committed)
    (stays : branchStaysBelow processing committed items database = true)
    (throws : pushBranch processing items database = .error (thrown, failed) reached) :
    ∃ longer, Tracked hashing processing genesis longer committed reached.store ∧
      reached.core.lastIrreversibleBlockNum ≤ committed ∧
      reached.pendingSession = database.pendingSession := by
  induction items generalizing database chain with
  | nil => cases throws
  | cons item rest inductionHypothesis =>
    obtain ⟨low, later⟩ := Bool.and_eq_true_iff.mp stays
    unfold pushBranch at throws
    have frame := tryBlock_frame processing item.block database
    cases tried : tryBlock processing item.block database with
    | error other middle =>
      rw [tried] at throws frame
      cases throws
      have restored := tryBlock_restored tracked low tried
      exact ⟨chain, restored ▸ tracked, by rwa [core, restored], frame.1⟩
    | ok _ middle =>
      rw [tried] at throws later frame
      obtain ⟨state, prepares, _, irreversible, _⟩ := tryBlock_ok tried
      have limit := irreversible_of_staysBelow low prepares
      have quiet : unsquashed processing item.block database = true := by
        have depth := tracked.depth
        have revision := tracked.revision
        simp only [unsquashed, prepares, decide_eq_true_eq]
        omega
      obtain ⟨next, _⟩ := tryBlock_tracked tracked quiet tried
      have unraised : middle.core.lastIrreversibleBlockNum ≤ committed := irreversible ▸ limit
      rw [Nat.max_eq_left unraised] at next
      obtain ⟨longer, final, lowFinal, idle⟩ := inductionHypothesis next unraised later throws
      exact ⟨longer, final, lowFinal, idle.trans frame.1⟩

/-- The fork database plays no part in the undo history. -/
theorem steady_forkDb (steady : Steady processing genesis database)
    (forkDb : ForkDatabase Id Tx H) :
    Steady processing genesis { database with forkDb := forkDb } :=
  steady

/-- A switch that keeps what is committed leaves a steady store.

Proof: the pops and the new branch keep the history down to the committed height, which
is the last irreversible block of the old head. If the new branch applies, its own last
irreversible block is at least that. If it fails, the old branch is applied again, and the
head id shows that the chain, and with it the last irreversible block, is the old one. -/
theorem switchForks_steady {newHead : ForkItem Id Tx H}
    (steady : Steady processing genesis database)
    (keeps : orderlySwitch processing newHead database = true) :
    Steady processing genesis (left (switchForks processing newHead database)) := by
  obtain ⟨idle, chain, tracked⟩ := steady
  unfold orderlySwitch at keeps
  split at keeps
  · rename_i first front second branches
    cases popping : leaveBranch newHead first front second database with
    | error thrown stuck =>
      simp only [popping, List.isEmpty_iff] at keeps
      obtain ⟨store, idleStuck⟩ := leaveBranch_closed idle keeps popping
      simp only [switchForks, branches, popping, left]
      refine ⟨idleStuck, chain, ?_⟩
      rw [core, store]
      exact tracked
    | ok _ popped =>
      simp only [popping] at keeps
      obtain ⟨count, lower, idlePopped⟩ := leaveBranch_tracked tracked idle popping
      have below : popped.core.lastIrreversibleBlockNum ≤
          database.core.lastIrreversibleBlockNum :=
        stateAfter_irreversible tracked.lineage.replayed lower.lineage.replayed
      cases pushing : pushBranch processing first.reverse popped with
      | ok _ switched =>
        simp only [pushing, Bool.and_eq_true, decide_eq_true_eq] at keeps
        obtain ⟨final, _, idleFinal⟩ := pushBranch_tracked lower below keeps.1 pushing
        rw [Nat.max_eq_right keeps.2] at final
        simp only [switchForks, branches, popping, pushing, left]
        exact ⟨idleFinal.trans idlePopped, _, final⟩
      | error thrown reached =>
        obtain ⟨thrown, failed⟩ := thrown
        simp only [pushing, Bool.and_eq_true] at keeps
        obtain ⟨stays, recovers⟩ := keeps
        obtain ⟨longer, partly, lowReached, idleReached⟩ :=
          pushBranch_failed lower below stays pushing
        cases leaving : leaveFailed failed front second reached with
        | error other stuck =>
          simp [leaving] at recovers
        | ok _ back =>
          simp only [leaving, Bool.and_eq_true] at recovers
          obtain ⟨quiet, returns⟩ := recovers
          obtain ⟨countBack, lowerBack, idleBack⟩ :=
            leaveFailed_tracked partly (idleReached.trans idlePopped) leaving
          have belowBack : back.core.lastIrreversibleBlockNum ≤
              database.core.lastIrreversibleBlockNum :=
            Nat.le_trans
              (stateAfter_irreversible partly.lineage.replayed lowerBack.lineage.replayed)
              lowReached
          cases restoring : restoreBranch processing (front :: second).reverse back with
          | error other stuck =>
            rw [restoring] at returns
            cases returns
          | ok _ restored =>
            simp only [switchForks, branches, popping, pushing, leaving, restoring, left]
            have applies := restoreBranch_ok restoring
            obtain ⟨trackedFinal, _, idleFinal⟩ :=
              pushBranch_tracked lowerBack belowBack quiet applies
            rw [List.reverse_cons] at applies
            have head : restored.core.headBlockId = database.core.headBlockId := by
              obtain ⟨_, top, rest, same, id⟩ := ForkDatabase.fetchBranchFrom_heads branches
              cases same
              rw [pushBranch_head applies, id]
            obtain ⟨rfl, objects⟩ := trackedFinal.unique tracked head
            have same : restored.core.lastIrreversibleBlockNum =
                database.core.lastIrreversibleBlockNum := by
              rw [core, core, objects]
            rw [same, Nat.max_self] at trackedFinal
            exact ⟨idleFinal.trans idleBack, _, same ▸ trackedFinal⟩
  · rename_i missing
    have thrown : switchForks processing newHead database = .error .branchMissing database := by
      unfold switchForks
      split
      · rename_i first front second branches
        exact absurd branches (missing first front second)
      · rfl
    rw [thrown]
    exact ⟨idle, chain, tracked⟩

/-- An orderly push leaves a steady store. -/
theorem pushUnprotected_steady {block : Block Id Tx H}
    (steady : Steady processing genesis database)
    (keeps : orderly processing block database = true) :
    Steady processing genesis (left (pushUnprotected processing block database)) := by
  unfold orderly at keeps
  cases accepts : database.forkDb.pushBlock hashing block with
  | error thrown =>
    simp only [pushUnprotected, accepts, left]
    exact steady
  | ok forkDb =>
    obtain ⟨newHead, top⟩ := ForkDatabase.pushBlock_head accepts
    simp only [accepts, top] at keeps
    have pushed := steady_forkDb steady (forkDb.pin [newHead])
    simp only [pushUnprotected, accepts, top]
    split
    · rename_i apart
      rw [if_pos apart] at keeps
      split
      · rename_i higher
        rw [if_pos higher] at keeps
        have switched := switchForks_steady pushed keeps
        split <;> rename_i outcome <;> rw [outcome] at switched <;> exact switched
      · exact pushed
    · rename_i extending
      rw [if_neg extending] at keeps
      obtain ⟨idle, chain, tracked⟩ := pushed
      have frame := tryBlock_frame processing block
        { database with forkDb := forkDb.pin [newHead] }
      cases tried : tryBlock processing block { database with forkDb := forkDb.pin [newHead] } with
      | ok _ reached =>
        simp only [tried] at keeps
        rw [tried, left] at frame
        obtain ⟨longer, raised⟩ := tryBlock_tracked tracked keeps tried
        rw [Nat.max_eq_right raised] at longer
        exact ⟨frame.1.trans idle, _, longer⟩
      | error thrown reached =>
        simp only [tried] at keeps
        rw [tried, left] at frame
        have restored := tryBlock_restored tracked keeps tried
        refine ⟨frame.1.trans idle, chain, ?_⟩
        simp only [left, core, restored]
        exact tracked

theorem Steady.rewindable (steady : Steady processing genesis database) :
    Rewindable processing genesis database := by
  obtain ⟨_, chain, tracked⟩ := steady
  have reached := tracked.reached
  have revision := tracked.revision
  have depth := tracked.depth
  have history : chain.length - database.core.lastIrreversibleBlockNum =
      database.store.saved.length := by omega
  refine ⟨chain, reached.linked, reached.head.symm, ?_, ?_, ?_, ?_, ?_⟩
  · rw [revision, core, reached.number]
  · rw [depth, core, reached.number]
  · exact fun position state found => tracked.lineage.savedStates found
  · rw [history]
    exact tracked.lineage.rewound _
  · have bottom := undoAll_revision database.store.current database.store.saved
      database.store.revision
    rw [bottom]
    omega

/-- An open pending session is on the undo stack. -/
def PendingOpen (database : Database hashing R) : Prop :=
  database.pendingSession = true → database.store.saved ≠ []

omit [DecidableEq Id] in
theorem openPending_settled (opened : PendingOpen database) :
    database.openPending.store.saved ≠ [] ∧ database.openPending.pendingSession = true ∧
      database.openPending.store.undo = database.clearPending.store := by
  unfold openPending clearPending resetPendingSession
  cases session : database.pendingSession with
  | true => exact ⟨opened session, session, rfl⟩
  | false => simp

theorem undo_put {S : Type} {store : UndoStore S} (opened : store.saved ≠ []) (state : S) :
    (store.put state).undo = store.undo := by
  unfold UndoStore.undo
  cases saved : store.saved with
  | nil => exact absurd saved opened
  | cons first rest => simp [saved]

omit [DecidableEq Id] in
/-- A pending transaction changes nothing below the pending session. -/
theorem pushPending_settled (transaction : Tx) (opened : PendingOpen database) :
    (left (pushPending processing transaction database)).clearPending.store =
        database.clearPending.store ∧
      PendingOpen (left (pushPending processing transaction database)) := by
  obtain ⟨stacked, session, settled⟩ := openPending_settled opened
  unfold pushPending
  dsimp only
  rw [Script.run_open _ _ (by simp)]
  cases (bodyStep (processing.applyTransaction transaction) database.openPending.store.current).eval
      database.openPending.store.start.current with
  | ok _ state =>
    simp only [outcomeMap, UndoStore.squash_put_start stacked, left]
    refine ⟨?_, fun _ => stacked⟩
    simp only [clearPending, resetPendingSession, session, if_true, undo_put stacked] at settled ⊢
    exact settled
  | error thrown state =>
    simp only [outcomeMap, UndoStore.undo_put_start, left]
    refine ⟨?_, fun _ => stacked⟩
    simp only [clearPending, resetPendingSession, session, if_true] at settled ⊢
    exact settled

omit [DecidableEq Id] in
theorem restorePending_settled (transactions : List Tx) (opened : PendingOpen database) :
    (restorePending processing transactions database).clearPending.store =
        database.clearPending.store ∧
      PendingOpen (restorePending processing transactions database) := by
  induction transactions generalizing database with
  | nil => exact ⟨rfl, opened⟩
  | cons transaction rest inductionHypothesis =>
    unfold restorePending
    split
    · exact inductionHypothesis opened
    · obtain ⟨settled, next⟩ := @pushPending_settled _ _ _ _ _ processing _ transaction opened
      obtain ⟨later, final⟩ := inductionHypothesis next
      exact ⟨later.trans settled, final⟩

omit [DecidableEq Id] in
theorem clearPending_store_poppedTx (database : Database hashing R) (popped : List Tx) :
    { database with poppedTx := popped }.clearPending.store = database.clearPending.store := by
  unfold clearPending resetPendingSession
  dsimp only
  split <;> rfl

omit [DecidableEq Id] in
/-- The transactions restored at the end of a push lie in the pending session. -/
theorem finishPush_settled (pending : List Tx) (idle : database.pendingSession = false) :
    (finishPush processing pending database).clearPending.store = database.store ∧
      PendingOpen (finishPush processing pending database) := by
  have closed : PendingOpen { database with forkDb := database.forkDb.pin [] } := by
    intro session
    simp [idle] at session
  obtain ⟨popped, openPopped⟩ :=
    @restorePending_settled _ _ _ _ _ processing _ database.poppedTx closed
  have cleared : PendingOpen { restorePending processing database.poppedTx
      { database with forkDb := database.forkDb.pin [] } with poppedTx := [] } := openPopped
  obtain ⟨restored, openFinal⟩ :=
    @restorePending_settled _ _ _ _ _ processing _ pending cleared
  refine ⟨?_, openFinal⟩
  have base : ({ database with forkDb := database.forkDb.pin [] } :
      Database hashing R).clearPending.store = database.store := by
    simp [clearPending, resetPendingSession, idle]
  have between := restored.trans (clearPending_store_poppedTx
    (restorePending processing database.poppedTx { database with forkDb := database.forkDb.pin [] }) [])
  exact between.trans (popped.trans base)

theorem Steady.of_store {other : Database hashing R} (steady : Steady processing genesis database)
    (idle : other.pendingSession = false) (same : other.store = database.store) :
    Steady processing genesis other := by
  obtain ⟨_, chain, tracked⟩ := steady
  refine ⟨idle, chain, ?_⟩
  rw [core, same]
  exact tracked

omit [DecidableEq Id] in
theorem clearPending_idle (database : Database hashing R) :
    database.clearPending.pendingSession = false := by
  unfold clearPending resetPendingSession
  cases session : database.pendingSession <;> simp [session]

/-- One call of an orderly run keeps the store below the pending session steady. -/
theorem afterCall_steady {call : Call Id Tx H} {rest : List (Call Id Tx H)}
    (opened : PendingOpen database) (steady : Steady processing genesis database.clearPending)
    (keeps : orderlyRun processing (call :: rest) database = true) :
    PendingOpen (afterCall processing call database) ∧
      Steady processing genesis (afterCall processing call database).clearPending ∧
      orderlyRun processing rest (afterCall processing call database) = true := by
  cases call with
  | pushTransaction transaction =>
    obtain ⟨settled, stacked⟩ :=
      @pushPending_settled _ _ _ _ _ processing _ transaction opened
    exact ⟨stacked, steady.of_store (clearPending_idle _) settled, keeps⟩
  | pushBlock block =>
    obtain ⟨orderly, later⟩ := Bool.and_eq_true_iff.mp keeps
    have pushed := pushUnprotected_steady steady orderly
    have finish : afterCall processing (.pushBlock block) database =
        finishPush processing database.pendingTx
          (left (pushUnprotected processing block database.clearPending)) :=
      left_pushBlock processing block database
    obtain ⟨settled, stacked⟩ :=
      @finishPush_settled _ _ _ _ _ processing _ database.pendingTx pushed.1
    refine ⟨finish ▸ stacked, ?_, later⟩
    rw [finish]
    exact pushed.of_store (clearPending_idle _) settled

/-- After every orderly run from genesis, whenever no pending session is open, the undo
stack holds one state per reversible block and rewinds to the last irreversible one. -/
theorem orderly_run_rewindable (processing : Processing Id Tx H R) (genesis : R)
    (calls : List (Call Id Tx H))
    (keeps : orderlyRun processing calls (Database.genesis hashing genesis) = true)
    (idle : (afterCalls processing calls (Database.genesis hashing genesis)).pendingSession =
      false) :
    Rewindable processing genesis
      (afterCalls processing calls (Database.genesis hashing genesis)) := by
  have run : ∀ (calls : List (Call Id Tx H)) (database : Database hashing R),
      PendingOpen database → Steady processing genesis database.clearPending →
      orderlyRun processing calls database = true →
        Steady processing genesis (afterCalls processing calls database).clearPending := by
    intro calls
    induction calls with
    | nil => exact fun database _ steady _ => steady
    | cons call rest inductionHypothesis =>
      intro database opened steady ordered
      obtain ⟨openedNext, steadyNext, orderedNext⟩ := afterCall_steady opened steady ordered
      exact inductionHypothesis _ openedNext steadyNext orderedNext
  have start : Steady processing genesis (Database.genesis hashing genesis).clearPending :=
    ⟨rfl, [], tracked_genesis hashing processing genesis⟩
  have final := run calls _ (fun session => by simp [Database.genesis] at session) start keeps
  have visible := final.of_store idle (by simp [clearPending, resetPendingSession, idle])
  exact visible.rewindable

end Database

namespace VersionState

/-- The node on a new data directory. -/
def newNode : Database (Hashing.spelled Unit VotingHeader) VersionState :=
  Database.genesis (Hashing.spelled Unit VotingHeader) ⟨0, ∅, 0, 0, 0⟩

/-- The first blocks of a round without votes, newest first. -/
def silentRound (count : Nat) : List (Entry Unit VotingHeader) :=
  ((scheduled.zipIdx.take count).map
    (fun turn => (turn.1, [], VotingHeader.mk (3 * (turn.2 + 1)) none))).reverse

/-- The blocks of a chain of contents, pushed. -/
def pushAll (entries : List (Entry Unit VotingHeader)) :
    List (Database.Call (List (Entry Unit VotingHeader)) Unit VotingHeader) :=
  (Entry.blocks entries).map .pushBlock

/-- A block without a vote, a block of the voting branch, and a switch to that branch. -/
theorem switched_run_rewindable :
    Database.Rewindable processing ⟨0, ∅, 0, 0, 0⟩
      (Database.afterCalls processing (pushAll (silentRound 1) ++ pushAll (firstRound.drop 19))
        newNode) :=
  Database.orderly_run_rewindable processing ⟨0, ∅, 0, 0, 0⟩
    (pushAll (silentRound 1) ++ pushAll (firstRound.drop 19)) (by decide +kernel)
    (by decide +kernel)

/-- A round of one branch, then the round of the voting branch, whose block 22 makes the
node switch and fails after it has made block 1 irreversible. -/
def strandedRun : List (Database.Call (List (Entry Unit VotingHeader)) Unit VotingHeader) :=
  pushAll (silentRound 21) ++ pushAll firstRound ++ [.pushBlock hardforkBlock]

/-- A block on top of the one the node is left with. -/
def nextBlock : Block (List (Entry Unit VotingHeader)) Unit VotingHeader :=
  Entry.block ("b", [], ⟨6, none⟩) (firstRound.drop 20)

/-- The next block is applied, and the undo stack has no state for block 1 although the
last irreversible block is still block 0. -/
theorem stranded_run_not_rewindable :
    thrownBy (Database.pushBlock processing nextBlock
        (Database.afterCalls processing strandedRun newNode)) = none ∧
      (left (Database.pushBlock processing nextBlock
        (Database.afterCalls processing strandedRun newNode))).pendingSession = false ∧
      ¬ Database.Rewindable processing ⟨0, ∅, 0, 0, 0⟩
        (left (Database.pushBlock processing nextBlock
          (Database.afterCalls processing strandedRun newNode))) := by
  refine ⟨by decide +kernel, by decide +kernel, ?_⟩
  have stack : (left (Database.pushBlock processing nextBlock
      (Database.afterCalls processing strandedRun newNode))).store.saved.length +
      (left (Database.pushBlock processing nextBlock (Database.afterCalls processing strandedRun
        newNode))).core.lastIrreversibleBlockNum ≠
      (left (Database.pushBlock processing nextBlock (Database.afterCalls processing strandedRun
        newNode))).core.headBlockNumber := by
    decide +kernel
  rintro ⟨chain, _, _, _, depth, _⟩
  exact stack depth

end VersionState

end DeipChain.Chain
