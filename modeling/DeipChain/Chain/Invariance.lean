import DeipChain.Chain.Application

/-!
# Properties of states that no call on the node can break

The node moves between states in few ways: a block is prepared, a prepared block is
finished or left half finished, a transaction is applied, and a session is undone. A
property of states that the first three keep is therefore a property of every state in
the store, the current one and those it can be taken back to, after any calls on the
node: pushes that extend the head, switch forks, fail or are refused, and pending
transactions.
-/
namespace DeipChain.Chain

open Snapshots

variable {Id Tx H R : Type} {hashing : Hashing Id Tx H}

/-- The property holds of the current and of every saved state. -/
structure StoreHolds {S : Type} (property : S → Prop) (store : UndoStore S) : Prop where
  current : property store.current
  saved : ∀ state ∈ store.saved, property state

namespace StoreHolds

variable {S : Type} {property : S → Prop} {store : UndoStore S}

theorem start (holds : StoreHolds property store) : StoreHolds property store.start where
  current := holds.current
  saved := by
    intro state member
    rcases List.mem_cons.mp member with rfl | older
    · exact holds.current
    · exact holds.saved state older

theorem undo (holds : StoreHolds property store) : StoreHolds property store.undo := by
  cases below : store.saved with
  | nil =>
    rw [UndoStore.undo, below]
    exact holds
  | cons first rest =>
    rw [UndoStore.undo, below]
    have saved := holds.saved
    rw [below] at saved
    exact ⟨saved first List.mem_cons_self,
      fun state member => saved state (List.mem_cons_of_mem _ member)⟩

theorem squash (holds : StoreHolds property store) : StoreHolds property store.squash := by
  have saved := holds.saved
  cases below : store.saved with
  | nil =>
    rw [UndoStore.squash, below]
    exact holds
  | cons first rest =>
    rw [below] at saved
    cases rest with
    | nil =>
      simp only [UndoStore.squash, below]
      exact ⟨holds.current, by simp⟩
    | cons second rest =>
      simp only [UndoStore.squash, below]
      exact ⟨holds.current, fun state member => saved state (List.mem_cons_of_mem _ member)⟩

theorem commit (holds : StoreHolds property store) (revision : Int) :
    StoreHolds property (store.commit revision) :=
  ⟨holds.current, fun state member => holds.saved state (List.mem_of_mem_take member)⟩

theorem put (holds : StoreHolds property store) {state : S} (kept : property state) :
    StoreHolds property (store.put state) :=
  ⟨kept, holds.saved⟩

end StoreHolds

/-- The parts of a block and a transaction keep the property. -/
structure Preserves [DecidableEq Id] (hashing : Hashing Id Tx H)
    (processing : Processing Id Tx H R) (property : ChainState Id R → Prop) : Prop where
  prepares : ∀ block state middle, property state →
    prepared hashing processing block state = .ok () middle → property middle
  finishes : ∀ block state middle, property state →
    prepared hashing processing block state = .ok () middle →
      property (left (finished hashing processing block middle))
  applies : ∀ transaction state reached, property state →
    (bodyStep (processing.applyTransaction transaction) state).eval state = .ok () reached →
      property reached

namespace Database

variable {processing : Processing Id Tx H R} {property : ChainState Id R → Prop}
  {database : Database hashing R}

theorem resetPendingSession_holds (holds : StoreHolds property database.store) :
    StoreHolds property database.resetPendingSession.store := by
  unfold resetPendingSession
  split
  · exact holds.undo
  · exact holds

variable [DecidableEq Id]

/-- The parts of a push keep a property: the changes of the fork database, the blocks that
are tried and the pops. -/
structure PushKeeps (processing : Processing Id Tx H R) (kept : Database hashing R → Prop) :
    Prop where
  forks : ∀ database forkDb, kept database → kept { database with forkDb := forkDb }
  tries : ∀ block database, kept database → kept (left (tryBlock processing block database))
  pops : ∀ database : Database hashing R, kept database → kept (left database.popBlock)

theorem tryBlock_holds (preserves : Preserves hashing processing property)
    (block : Block Id Tx H) (holds : StoreHolds property database.store) :
    StoreHolds property (left (tryBlock processing block database)).store := by
  cases prepares : prepared hashing processing block database.store.current with
  | error thrown state =>
    rw [tryBlock_unprepared prepares]
    exact holds
  | ok _ state =>
    have middle := preserves.prepares block _ state holds.current prepares
    have final := preserves.finishes block _ state holds.current prepares
    rcases Int.lt_or_le database.store.revision (state.core.lastIrreversibleBlockNum : Int)
      with lost | survives
    · rw [tryBlock_closed prepares lost]
      split
      · exact ⟨middle, List.forall_mem_nil _⟩
      · cases finishes : finished hashing processing block state <;> rw [finishes] at final
          <;> exact ⟨final, List.forall_mem_nil _⟩
    · rw [tryBlock_open prepares survives]
      split
      · exact holds.commit _
      · split
        · exact holds.commit _
        · rename_i reached finishes
          rw [finishes] at final
          exact (holds.commit _).start.put final

theorem popBlock_holds (holds : StoreHolds property database.store) :
    StoreHolds property (left database.popBlock).store := by
  have reset := resetPendingSession_holds holds
  unfold popBlock
  dsimp only
  split
  · exact reset
  · split
    · exact reset
    · exact reset.undo

theorem PushKeeps.popUntil {kept : Database hashing R → Prop} (keeps : PushKeeps processing kept)
    (previous : Id) (fuel : Nat) (holds : kept database) :
    kept (left (popUntil previous fuel database)) := by
  induction fuel generalizing database with
  | zero =>
    unfold Database.popUntil
    split <;> exact holds
  | succ fuel inductionHypothesis =>
    unfold Database.popUntil
    split
    · exact holds
    · have lower := keeps.pops database holds
      cases popped : database.popBlock with
      | ok _ reached =>
        rw [popped] at lower
        exact inductionHypothesis lower
      | error thrown reached =>
        rw [popped] at lower
        exact lower

theorem PushKeeps.pushBranch {kept : Database hashing R → Prop}
    (keeps : PushKeeps processing kept) (items : List (ForkItem Id Tx H))
    (holds : kept database) : kept (left (pushBranch processing items database)) := by
  induction items generalizing database with
  | nil => exact holds
  | cons item rest inductionHypothesis =>
    have tried := keeps.tries item.block database holds
    unfold Database.pushBranch
    cases outcome : tryBlock processing item.block database with
    | ok _ reached =>
      rw [outcome] at tried
      exact inductionHypothesis tried
    | error thrown reached =>
      rw [outcome] at tried
      exact tried

theorem PushKeeps.restoreBranch {kept : Database hashing R → Prop}
    (keeps : PushKeeps processing kept) (items : List (ForkItem Id Tx H))
    (holds : kept database) : kept (left (restoreBranch processing items database)) := by
  induction items generalizing database with
  | nil => exact holds
  | cons item rest inductionHypothesis =>
    have tried := keeps.tries item.block database holds
    unfold Database.restoreBranch
    cases outcome : tryBlock processing item.block database with
    | ok _ reached =>
      rw [outcome] at tried
      exact inductionHypothesis tried
    | error thrown reached =>
      rw [outcome] at tried
      exact tried

theorem PushKeeps.switchForks {kept : Database hashing R → Prop}
    (keeps : PushKeeps processing kept) (newHead : ForkItem Id Tx H) (holds : kept database) :
    kept (left (switchForks processing newHead database)) := by
  unfold Database.switchForks
  split
  · rename_i first front second _
    have leaves : kept (left (leaveBranch newHead first front second database)) :=
      keeps.popUntil _ _ (keeps.forks _ _ holds)
    split
    · rename_i thrown reached outcome
      rwa [outcome] at leaves
    · rename_i popped outcome
      rw [outcome] at leaves
      have pushes := keeps.pushBranch first.reverse leaves
      split
      · rename_i switched pushed
        rwa [left, pushed] at pushes
      · rename_i thrown failed reached pushed
        rw [left, pushed] at pushes
        have backs : kept (left (leaveFailed failed front second reached)) :=
          keeps.popUntil _ _ (keeps.forks _ _ pushes)
        split
        · rename_i other stuck back
          rwa [back] at backs
        · rename_i back came
          rw [came, left] at backs
          have restores := keeps.restoreBranch (front :: second).reverse backs
          split
          · rename_i other stuck restored
            rwa [restored] at restores
          · rename_i restored again
            rwa [again] at restores
  · exact holds

/-- What the parts of a push keep is kept by the push, however it ends. -/
theorem PushKeeps.pushUnprotected {kept : Database hashing R → Prop}
    (keeps : PushKeeps processing kept) (block : Block Id Tx H) (holds : kept database) :
    kept (left (pushUnprotected processing block database)) := by
  unfold Database.pushUnprotected
  split
  · exact holds
  · split
    · exact holds
    · rename_i forkDb _ _ newHead _
      have pushed := keeps.forks database (forkDb.pin [newHead]) holds
      dsimp only
      split
      · split
        · have switches := keeps.switchForks newHead pushed
          split
          · rename_i switched outcome
            rwa [outcome] at switches
          · rename_i thrown reached outcome
            rwa [outcome] at switches
        · exact pushed
      · have tries := keeps.tries block _ pushed
        split
        · rename_i reached outcome
          rwa [outcome] at tries
        · rename_i thrown reached outcome
          rw [outcome] at tries
          exact keeps.forks _ _ tries

theorem pushUnprotected_holds (preserves : Preserves hashing processing property)
    (block : Block Id Tx H) (holds : StoreHolds property database.store) :
    StoreHolds property (left (pushUnprotected processing block database)).store := by
  have keeps : PushKeeps processing
      (fun database : Database hashing R => StoreHolds property database.store) :=
    ⟨fun _ _ holds => holds, fun block _ holds => tryBlock_holds preserves block holds,
      fun _ holds => popBlock_holds holds⟩
  exact keeps.pushUnprotected block holds

theorem pushPending_holds (preserves : Preserves hashing processing property)
    (transaction : Tx) (holds : StoreHolds property database.store) :
    StoreHolds property (left (pushPending processing transaction database)).store := by
  have opened : StoreHolds property database.openPending.store := by
    unfold openPending
    split
    · exact holds
    · exact holds.start
  unfold pushPending
  dsimp only
  rw [Script.run_open _ _ (by simp), UndoStore.start_current]
  cases applies : (bodyStep (processing.applyTransaction transaction)
      database.openPending.store.current).eval database.openPending.store.current with
  | ok _ reached =>
    exact (opened.start.put (preserves.applies transaction _ reached opened.current applies)).squash
  | error thrown reached =>
    simp only [outcomeMap, UndoStore.undo_put_start, left]
    exact opened

theorem restorePending_holds (preserves : Preserves hashing processing property)
    (transactions : List Tx) (holds : StoreHolds property database.store) :
    StoreHolds property (restorePending processing transactions database).store := by
  induction transactions generalizing database with
  | nil => exact holds
  | cons transaction rest inductionHypothesis =>
    unfold restorePending
    split
    · exact inductionHypothesis holds
    · exact inductionHypothesis (pushPending_holds preserves transaction holds)

theorem afterCall_holds (preserves : Preserves hashing processing property)
    (call : Call Id Tx H) (holds : StoreHolds property database.store) :
    StoreHolds property (afterCall processing call database).store := by
  cases call with
  | pushTransaction transaction => exact pushPending_holds preserves transaction holds
  | pushBlock block =>
    rw [afterCall, left_pushBlock]
    have cleared : StoreHolds property database.clearPending.store :=
      resetPendingSession_holds holds
    have pushed := pushUnprotected_holds preserves block cleared
    apply restorePending_holds preserves
    exact restorePending_holds preserves _ pushed

/-- A property of states kept by the parts of a block and by a transaction holds after any
calls on the node, of the current state and of every state it can be taken back to. -/
theorem afterCalls_holds (preserves : Preserves hashing processing property)
    (calls : List (Call Id Tx H)) (holds : StoreHolds property database.store) :
    StoreHolds property (afterCalls processing calls database).store := by
  induction calls generalizing database with
  | nil => exact holds
  | cons call rest inductionHypothesis =>
    exact inductionHypothesis (afterCall_holds preserves call holds)

end Database

end DeipChain.Chain
