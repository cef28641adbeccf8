import DeipChain.Chain.Revision
import DeipChain.Chain.Transactions

/-!
# The time of the head

The time of the head never goes back, whatever a push does, as long as it does not try to
switch forks: a block is applied only when its time is above that of the head, and a block
that fails leaves the head where it was or on the failed block. The transactions in the
pending session do not reach the time.
-/
namespace DeipChain.Chain

open Snapshots

variable {Id Tx H TxId Rest : Type} {hashing : Hashing Id Tx H}

namespace ForkDatabase

variable [DecidableEq Id]

theorem insertItem_num {forkDb : ForkDatabase Id Tx H} {item newHead : ForkItem Id Tx H}
    (top : (forkDb.insertItem hashing item).head = some newHead) :
    hashing.num item.block ≤ hashing.num newHead.block := by
  simp only [insertItem] at top
  split at top
  · cases top
    exact Nat.le_refl _
  · split at top
    · cases top
      exact Nat.le_refl _
    · cases top
      omega

/-- The head of the fork database is not below the last block that was pushed. -/
theorem pushBlock_num {forkDb pushed : ForkDatabase Id Tx H} {block : Block Id Tx H}
    {newHead : ForkItem Id Tx H} (done : forkDb.pushBlock hashing block = .ok pushed)
    (top : pushed.head = some newHead) : hashing.num block ≤ hashing.num newHead.block := by
  unfold pushBlock at done
  split at done
  · cases done
    exact insertItem_num top
  · split at done
    · cases done
    · split at done
      · cases done
        exact insertItem_num top
      · split at done
        · cases done
        · cases done
          exact insertItem_num top

end ForkDatabase

/-- A transaction does not reach the time. -/
theorem applyTransaction_time [DecidableEq TxId] {evaluators : Evaluators Id Tx H TxId Rest}
    {skip : SkipFlags} {transaction : Tx} {state reached : ChainState Id (Body TxId Tx Rest)}
    (done : (bodyStep (evaluators.applyTransaction hashing skip transaction) state).eval state =
      .ok () reached) : reached.body.time = state.body.time := by
  obtain ⟨_, rest, _, rfl⟩ := applyTransaction_ok.mp done
  rw [Evaluators.remember]
  split <;> rfl

namespace Database

/-- `head_block_time` -/
def headTime (database : Database hashing (Body TxId Tx Rest)) : Nat :=
  database.store.current.body.time

section Pushes

variable [DecidableEq TxId] [DecidableEq Id] {evaluators : Evaluators Id Tx H TxId Rest}
  {skip : SkipFlags} {block : Block Id Tx H} {database reached : Database hashing (Body TxId Tx Rest)}

omit [DecidableEq Id] in
/-- The time after the steps that follow the commit, however they end. -/
theorem finished_time (hashing : Hashing Id Tx H) (evaluators : Evaluators Id Tx H TxId Rest)
    (skip : SkipFlags) (block : Block Id Tx H) (state : ChainState Id (Body TxId Tx Rest)) :
    (left (finished hashing (evaluators.processing hashing skip) block state)).body.time =
      state.body.time := by
  have view := finished_timeAndIndex hashing evaluators skip block state
  simp only [timeAndIndex, Prod.mk.injEq] at view
  exact view.2.1

/-- A block is later than the head it extends. -/
theorem prepared_time {state middle : ChainState Id (Body TxId Tx Rest)}
    (done : prepared hashing (evaluators.processing hashing skip) block state = .ok () middle) :
    state.body.time < evaluators.timestamp block.header ∧
      middle.body.time = evaluators.timestamp block.header := by
  obtain ⟨_, _, _, early, _, _, _, _, _, time, _⟩ := prepared_parts done
  exact ⟨early, time⟩

theorem tryBlock_ok_time
    (done : tryBlock (evaluators.processing hashing skip) block database = .ok () reached) :
    database.headTime < evaluators.timestamp block.header ∧
      reached.headTime = evaluators.timestamp block.header := by
  obtain ⟨middle, prepares, finishes, _⟩ := tryBlock_ok done
  obtain ⟨early, time⟩ := prepared_time prepares
  have kept := finished_time hashing evaluators skip block middle
  rw [finishes, left] at kept
  exact ⟨early, kept.trans time⟩

/-- A block that is tried does not set the time back, however it ends. -/
theorem tryBlock_time (block : Block Id Tx H)
    (database : Database hashing (Body TxId Tx Rest)) :
    database.headTime ≤
      (left (tryBlock (evaluators.processing hashing skip) block database)).headTime := by
  cases prepares : prepared hashing (evaluators.processing hashing skip) block
      database.store.current with
  | error thrown state =>
    rw [tryBlock_unprepared prepares]
    exact Nat.le_refl _
  | ok _ middle =>
    obtain ⟨early, time⟩ := prepared_time prepares
    have final := finished_time hashing evaluators skip block middle
    have later : database.headTime ≤ middle.body.time := by
      rw [time]
      exact Nat.le_of_lt early
    rcases Int.lt_or_le database.store.revision (middle.core.lastIrreversibleBlockNum : Int)
      with lost | survives
    · rw [tryBlock_closed prepares lost]
      split
      · exact later
      · cases finishes : finished hashing (evaluators.processing hashing skip) block middle with
        | ok _ after =>
          rw [finishes, left] at final
          exact le_of_le_of_eq later final.symm
        | error thrown after =>
          rw [finishes, left] at final
          exact le_of_le_of_eq later final.symm
    · rw [tryBlock_open prepares survives]
      split
      · exact Nat.le_refl _
      · split
        · exact Nat.le_refl _
        · rename_i after finishes
          rw [finishes, left] at final
          exact le_of_le_of_eq later final.symm

/-- What a push does that does not try to switch forks: nothing at all, apart from the
fork database, or it tries the block on the head. -/
theorem pushUnprotected_plain {R : Type} {processing : Processing Id Tx H R}
    {database : Database hashing R} (plain : attemptsSwitch block database = false) :
    (∃ thrown, pushUnprotected processing block database = .error thrown database) ∨
    (∃ forkDb newHead, database.forkDb.pushBlock hashing block = .ok forkDb ∧
      forkDb.head = some newHead ∧ newHead.block.previous ≠ database.core.headBlockId ∧
      hashing.num newHead.block ≤ database.core.headBlockNumber ∧
      pushUnprotected processing block database =
        .ok false { database with forkDb := forkDb.pin [newHead] }) ∨
    ∃ forkDb, (∃ reached, tryBlock processing block { database with forkDb := forkDb } =
        .ok () reached ∧ pushUnprotected processing block database = .ok false reached) ∨
      ∃ thrown reached forkDb', tryBlock processing block { database with forkDb := forkDb } =
        .error thrown reached ∧ pushUnprotected processing block database =
          .error thrown { reached with forkDb := forkDb' } := by
  cases accepts : database.forkDb.pushBlock hashing block with
  | error thrown =>
    refine .inl ⟨thrown, ?_⟩
    simp only [pushUnprotected, accepts]
  | ok forkDb =>
    obtain ⟨newHead, top⟩ := ForkDatabase.pushBlock_head accepts
    by_cases apart : newHead.block.previous = database.core.headBlockId
    · refine .inr (.inr ⟨forkDb.pin [newHead], ?_⟩)
      simp only [pushUnprotected, accepts, top, ne_eq, apart, not_true_eq_false, if_false]
      cases tried : tryBlock processing block { database with forkDb := forkDb.pin [newHead] } with
      | ok _ reached => exact .inl ⟨reached, rfl, rfl⟩
      | error thrown reached => exact .inr ⟨thrown, reached, _, rfl, rfl⟩
    · have lower : hashing.num newHead.block ≤ database.core.headBlockNumber := by
        simp only [attemptsSwitch, accepts, top, ne_eq, apart, not_false_eq_true, true_and,
          decide_eq_false_iff_not] at plain
        omega
      refine .inr (.inl ⟨forkDb, newHead, rfl, top, apart, lower, ?_⟩)
      simp only [pushUnprotected, accepts, top, ne_eq, apart, not_false_eq_true, if_true]
      rw [if_neg (by omega)]

/-- A push that does not try to switch forks does not set the time back. -/
theorem pushUnprotected_time (plain : attemptsSwitch block database = false) :
    database.headTime ≤
      (left (pushUnprotected (evaluators.processing hashing skip) block database)).headTime := by
  rcases @pushUnprotected_plain _ _ _ _ _ block _ (evaluators.processing hashing skip) database plain
    with ⟨thrown, refused⟩ | ⟨forkDb, newHead, _, _, _, _, ignored⟩ |
      ⟨forkDb, ⟨reached, tried, extended⟩ | ⟨thrown, reached, _, tried, failed⟩⟩
  · rw [refused]
    exact Nat.le_refl _
  · rw [ignored]
    exact Nat.le_refl _
  · have later := @tryBlock_time _ _ _ _ _ hashing _ _ evaluators skip block
      { database with forkDb := forkDb }
    rw [tried] at later
    rw [extended]
    exact later
  · have later := @tryBlock_time _ _ _ _ _ hashing _ _ evaluators skip block
      { database with forkDb := forkDb }
    rw [tried] at later
    rw [failed]
    exact later

/-- A block that names the head as previous is tried on it, unless the push tries to
switch forks. -/
theorem pushUnprotected_extends {switched : Bool} (plain : attemptsSwitch block database = false)
    (named : block.previous = database.core.headBlockId)
    (numbered : hashing.numFromId database.core.headBlockId = database.core.headBlockNumber)
    (done : pushUnprotected (evaluators.processing hashing skip) block database =
      .ok switched reached) :
    database.headTime < evaluators.timestamp block.header ∧
      reached.headTime = evaluators.timestamp block.header := by
  rcases @pushUnprotected_plain _ _ _ _ _ block _ (evaluators.processing hashing skip) database plain
    with ⟨thrown, refused⟩ | ⟨forkDb, newHead, accepts, top, _, lower, _⟩ |
      ⟨forkDb, ⟨after, tried, extended⟩ | ⟨thrown, after, _, _, failed⟩⟩
  · rw [refused] at done
    cases done
  · -- the fork database puts forward nothing below the block itself
    have above := ForkDatabase.pushBlock_num accepts top
    rw [Hashing.num, named, numbered] at above
    omega
  · rw [extended] at done
    cases done
    have applied := tryBlock_ok_time tried
    exact applied
  · rw [failed] at done
    cases done

omit [DecidableEq Id] in
/-- Pending transactions do not reach the time. -/
theorem pendingState_time (transactions : List Tx) (state : ChainState Id (Body TxId Tx Rest)) :
    (pendingState (evaluators.processing hashing skip) transactions state).body.time =
      state.body.time := by
  induction transactions generalizing state with
  | nil => rfl
  | cons transaction rest inductionHypothesis =>
    rw [pendingState]
    split
    · exact inductionHypothesis state
    · split
      · rename_i applied done
        rw [inductionHypothesis, applyTransaction_time done]
      · exact inductionHypothesis state

omit [DecidableEq Id] in
theorem finishPush_time (pending : List Tx) (database : Database hashing (Body TxId Tx Rest)) :
    (finishPush (evaluators.processing hashing skip) pending database).headTime =
      database.headTime := by
  rw [headTime, finishPush_current, pendingState_time, pendingState_time]
  rfl

omit [DecidableEq Id] in
theorem pushPending_time (transaction : Tx) (database : Database hashing (Body TxId Tx Rest)) :
    (left (pushPending (evaluators.processing hashing skip) transaction database)).headTime =
      database.headTime := by
  rw [headTime, pushPending_current]
  split
  · rename_i applied done
    exact applyTransaction_time done
  · rfl

omit [DecidableEq TxId] [DecidableEq Id] in
theorem resetPendingSession_idle {R : Type} (database : Database hashing R) :
    database.resetPendingSession.pendingSession = false :=
  clearPending_idle database

omit [DecidableEq TxId] in
/-- A push leaves no pending session behind where there was none. -/
theorem pushUnprotected_idle {R : Type} {processing : Processing Id Tx H R}
    {database : Database hashing R} (block : Block Id Tx H)
    (idle : database.pendingSession = false) :
    (left (pushUnprotected processing block database)).pendingSession = false := by
  have keeps : PushKeeps processing
      (fun database : Database hashing R => database.pendingSession = false) := by
    refine ⟨fun _ _ idle => idle, fun block database idle => ?_, fun database _ => ?_⟩
    · rw [(tryBlock_frame processing block database).1]
      exact idle
    · unfold popBlock
      dsimp only
      split
      · exact resetPendingSession_idle database
      · split <;> exact resetPendingSession_idle database
  exact keeps.pushUnprotected block idle

/-- The number of the head is the one in its id. -/
def Numbered (hashing : Hashing Id Tx H) {R : Type} (state : ChainState Id R) : Prop :=
  hashing.numFromId state.core.headBlockId = state.core.headBlockNumber

omit [DecidableEq TxId] in
theorem numbered_preserves {R : Type} (processing : Processing Id Tx H R) :
    Preserves hashing processing (Numbered hashing) := by
  have prepares : ∀ block (state middle : ChainState Id R),
      prepared hashing processing block state = .ok () middle → Numbered hashing middle := by
    intro block state middle done
    obtain ⟨_, _, _, num, _, raised⟩ := prepared_ok done
    rw [Numbered, raised]
    exact hashing.numFromId_id block
  refine ⟨fun block state middle _ done => prepares block state middle done,
    fun block state middle _ done => ?_, fun transaction state reached numbered done => ?_⟩
  · have middleNumbered := prepares block state middle done
    rw [Numbered, finished_core]
    exact middleNumbered
  · rw [Numbered, core_of_bodyStep done]
    exact numbered

/-- The pending session, which lies on the history, reaches neither the core nor the time,
and every head in the history has its number. -/
structure Calm (database : Database hashing (Body TxId Tx Rest)) : Prop where
  opened : PendingOpen database
  core : database.clearPending.core = database.core
  time : database.clearPending.headTime = database.headTime
  numbered : StoreHolds (Numbered hashing) database.store

omit [DecidableEq TxId] [DecidableEq Id] in
theorem calm_of_idle (idle : database.pendingSession = false)
    (numbered : StoreHolds (Numbered hashing) database.store) : Calm database := by
  have same : database.clearPending.store = database.store := by
    simp [clearPending, resetPendingSession, idle]
  refine ⟨fun session => ?_, ?_, ?_, numbered⟩
  · rw [idle] at session
    cases session
  · rw [Database.core, same, Database.core]
  · rw [headTime, same, headTime]

omit [DecidableEq TxId] [DecidableEq Id] in
theorem Calm.reset (calm : Calm database) :
    Calm database.resetPendingSession ∧
      database.resetPendingSession.headTime = database.headTime ∧
      database.resetPendingSession.core = database.core :=
  ⟨calm_of_idle (resetPendingSession_idle database) (resetPendingSession_holds calm.numbered),
    calm.time, calm.core⟩

omit [DecidableEq TxId] [DecidableEq Id] in
theorem Calm.clear (calm : Calm database) :
    Calm database.clearPending ∧ database.clearPending.headTime = database.headTime :=
  ⟨calm_of_idle (clearPending_idle database) (resetPendingSession_holds calm.numbered),
    calm.time⟩

theorem Calm.pushPending (calm : Calm database) (transaction : Tx) :
    Calm (left (pushPending (evaluators.processing hashing skip) transaction database)) := by
  obtain ⟨settled, opened⟩ := @pushPending_settled _ _ _ _ _ (evaluators.processing hashing skip)
    database transaction calm.opened
  refine ⟨opened, ?_, ?_, pushPending_holds (numbered_preserves _) transaction calm.numbered⟩
  · rw [Database.core, settled, pushPending_core]
    exact calm.core
  · rw [headTime, settled, pushPending_time]
    exact calm.time

/-- The end of a push makes a new pending session on what the push leaves. -/
theorem calm_finishPush (pending : List Tx) (idle : database.pendingSession = false)
    (numbered : StoreHolds (Numbered hashing) database.store) :
    Calm (finishPush (evaluators.processing hashing skip) pending database) := by
  obtain ⟨settled, opened⟩ := @finishPush_settled _ _ _ _ _ (evaluators.processing hashing skip)
    database pending idle
  refine ⟨opened, ?_, ?_, ?_⟩
  · rw [Database.core, settled, finishPush_core]
    rfl
  · rw [headTime, settled, finishPush_time]
    rfl
  · apply restorePending_holds (numbered_preserves _)
    exact restorePending_holds (numbered_preserves _) _ numbered

theorem Calm.pushBlock (calm : Calm database) (block : Block Id Tx H) :
    Calm (left (pushBlock (evaluators.processing hashing skip) block database)) := by
  rw [left_pushBlock]
  exact calm_finishPush _ (pushUnprotected_idle block (clearPending_idle database))
    (pushUnprotected_holds (numbered_preserves _) block calm.clear.1.numbered)

theorem Calm.pushBlock_time (calm : Calm database)
    (plain : attemptsSwitch block database.clearPending = false) :
    database.headTime ≤
      (left (Database.pushBlock (evaluators.processing hashing skip) block database)).headTime := by
  rw [left_pushBlock, finishPush_time, ← calm.time]
  exact pushUnprotected_time plain

/-- A pushed block that names the head as previous becomes the head, unless the push tries
to switch forks. -/
theorem Calm.pushBlock_extends {switched : Bool} (calm : Calm database)
    (plain : attemptsSwitch block database.clearPending = false)
    (named : block.previous = database.core.headBlockId)
    (done : Database.pushBlock (evaluators.processing hashing skip) block database =
      .ok switched reached) :
    database.headTime < evaluators.timestamp block.header ∧
      reached.headTime = evaluators.timestamp block.header := by
  unfold Database.pushBlock at done
  split at done
  · rename_i other after pushed
    cases done
    rw [finishPush_time, ← calm.time]
    rw [← calm.core] at named
    exact pushUnprotected_extends plain named calm.clear.1.numbered.current pushed
  · cases done

/-- A call from the network. -/
theorem Calm.afterCall (calm : Calm database) (call : Call Id Tx H) :
    Calm (afterCall (evaluators.processing hashing skip) call database) := by
  cases call with
  | pushBlock block => exact calm.pushBlock block
  | pushTransaction transaction => exact calm.pushPending transaction

end Pushes

end Database

end DeipChain.Chain
