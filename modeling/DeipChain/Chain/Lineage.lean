import DeipChain.Chain.Application

/-!
# The undo history as a piece of the chain

Under the object store lies the applied chain. As long as every block has one session,
the saved states are the states after the blocks below the head, the revision is the
height of the head, and the history reaches down to the height committed last.
`Tracked` says so, with that height as a parameter. Each event of `push_block` moves it
in one way: popping a block keeps the committed height, applying a block raises it to
the block's last irreversible block, and a block that fails without raising it leaves
the store as it was.
-/
namespace DeipChain.Chain

open Snapshots

variable {Id Tx H R : Type} {hashing : Hashing Id Tx H}

/-- Undoing every session is undoing the newest and then the others. -/
theorem undoAll_cons {S : Type} (current first : S) (more : List S) (revision : Int) :
    (UndoStore.mk current (first :: more) revision).undoAll =
      (UndoStore.mk first more (revision - 1)).undoAll := by
  simp only [UndoStore.undoAll, List.length_cons, Function.iterate_succ_apply]
  rfl

theorem undoAll_revision {S : Type} (current : S) (saved : List S) (revision : Int) :
    (UndoStore.mk current saved revision).undoAll.revision = revision - saved.length := by
  induction saved generalizing current revision with
  | nil => simp [UndoStore.undoAll]
  | cons first more inductionHypothesis =>
    rw [undoAll_cons, inductionHypothesis, List.length_cons]
    omega

section Lineage

variable [DecidableEq Id] {processing : Processing Id Tx H R} {genesis : R}

/-- The state is the one after the chain, and the saved states are those after the
blocks below. -/
def Lineage (hashing : Hashing Id Tx H) (processing : Processing Id Tx H R) (genesis : R) :
    List (Block Id Tx H) → ChainState Id R → List (ChainState Id R) → Prop
  | chain, state, [] => stateAfter hashing processing genesis chain = some state
  | block :: rest, state, first :: more =>
    applied hashing processing block first = .ok () state ∧
      Lineage hashing processing genesis rest first more
  | [], _, _ :: _ => False

variable {chain : List (Block Id Tx H)} {state : ChainState Id R} {saved : List (ChainState Id R)}

theorem Lineage.replayed (lineage : Lineage hashing processing genesis chain state saved) :
    stateAfter hashing processing genesis chain = some state := by
  induction saved generalizing chain state with
  | nil => simpa [Lineage] using lineage
  | cons first more inductionHypothesis =>
    cases chain with
    | nil => exact lineage.elim
    | cons block rest =>
      exact stateAfter_cons.mpr ⟨first, inductionHypothesis lineage.2, lineage.1⟩

/-- Forgetting the oldest states leaves a lineage. -/
theorem Lineage.take (lineage : Lineage hashing processing genesis chain state saved)
    (count : Nat) : Lineage hashing processing genesis chain state (saved.take count) := by
  induction saved generalizing chain state count with
  | nil => simpa using lineage
  | cons first more inductionHypothesis =>
    cases count with
    | zero => simpa [Lineage] using lineage.replayed
    | succ count =>
      cases chain with
      | nil => exact lineage.elim
      | cons block rest => exact ⟨lineage.1, inductionHypothesis lineage.2 count⟩

/-- Undoing everything reaches the state after the blocks below the history. -/
theorem Lineage.rewound (lineage : Lineage hashing processing genesis chain state saved)
    (revision : Int) :
    stateAfter hashing processing genesis (chain.drop saved.length) =
      some (UndoStore.mk state saved revision).undoAll.current := by
  induction saved generalizing chain state revision with
  | nil => simpa [UndoStore.undoAll] using lineage.replayed
  | cons first more inductionHypothesis =>
    cases chain with
    | nil => exact lineage.elim
    | cons block rest =>
      rw [undoAll_cons]
      exact inductionHypothesis lineage.2 (revision - 1)

/-- Each saved state is the one before a block of the chain. -/
theorem Lineage.savedStates (lineage : Lineage hashing processing genesis chain state saved)
    {position : Nat} {earlier : ChainState Id R} (found : saved[position]? = some earlier) :
    stateAfter hashing processing genesis (chain.drop (position + 1)) = some earlier := by
  induction saved generalizing chain state position with
  | nil => simp at found
  | cons first more inductionHypothesis =>
    cases chain with
    | nil => exact lineage.elim
    | cons block rest =>
      cases position with
      | zero =>
        simp only [List.getElem?_cons_zero, Option.some.injEq] at found
        subst found
        simpa using lineage.2.replayed
      | succ position =>
        simpa using inductionHypothesis lineage.2 (by simpa using found)

/-- The store holds the chain with a history down to the committed height. -/
structure Tracked (hashing : Hashing Id Tx H) (processing : Processing Id Tx H R) (genesis : R)
    (chain : List (Block Id Tx H)) (committed : Nat) (store : UndoStore (ChainState Id R)) :
    Prop where
  lineage : Lineage hashing processing genesis chain store.current store.saved
  revision : store.revision = chain.length
  depth : store.saved.length + committed = chain.length

variable {committed : Nat} {store : UndoStore (ChainState Id R)}

theorem tracked_genesis (hashing : Hashing Id Tx H) (processing : Processing Id Tx H R)
    (body : R) : Tracked hashing processing body [] 0 (Database.genesis hashing body).store where
  lineage := by simp [Lineage, Database.genesis, stateAfter]
  revision := rfl
  depth := rfl

theorem Tracked.reached (tracked : Tracked hashing processing genesis chain committed store) :
    Reached hashing chain store.current.core :=
  stateAfter_reached tracked.lineage.replayed

/-- Two stores whose heads agree hold the same chain and the same objects. -/
theorem Tracked.unique {other : UndoStore (ChainState Id R)} {otherChain : List (Block Id Tx H)}
    {otherCommitted : Nat} (tracked : Tracked hashing processing genesis chain committed store)
    (trackedOther : Tracked hashing processing genesis otherChain otherCommitted other)
    (same : store.current.core.headBlockId = other.current.core.headBlockId) :
    chain = otherChain ∧ store.current = other.current := by
  have chains : chain = otherChain := by
    refine isChain_unique tracked.reached.linked trackedOther.reached.linked ?_
    rw [← tracked.reached.head, same, trackedOther.reached.head]
  subst chains
  have states := tracked.lineage.replayed.symm.trans trackedOther.lineage.replayed
  exact ⟨rfl, Option.some.inj states⟩

/-- A pop takes the newest block and its session away. -/
theorem Tracked.undo (tracked : Tracked hashing processing genesis chain committed store)
    (opened : store.saved ≠ []) :
    ∃ block rest, chain = block :: rest ∧
      Tracked hashing processing genesis rest committed store.undo := by
  obtain ⟨lineage, revision, depth⟩ := tracked
  cases saved : store.saved with
  | nil => exact absurd saved opened
  | cons first more =>
    rw [saved] at lineage depth
    cases chain with
    | nil => exact lineage.elim
    | cons block rest =>
      simp only [List.length_cons] at depth revision
      refine ⟨block, rest, rfl, ?_, ?_, ?_⟩
      · simpa [UndoStore.undo, saved] using lineage.2
      · simp only [UndoStore.undo, saved, revision]
        omega
      · simp only [UndoStore.undo, saved]
        omega

/-- Without a session there is nothing to pop. -/
theorem undo_closed {S : Type} {store : UndoStore S} (closed : store.saved = []) :
    store.undo = store := by
  simp [UndoStore.undo, closed]

/-- A commit raises the committed height and keeps the chain. -/
theorem Tracked.commit (tracked : Tracked hashing processing genesis chain committed store)
    {height : Nat} (below : height ≤ chain.length) :
    Tracked hashing processing genesis chain (max committed height) (store.commit height) := by
  have depth := tracked.depth
  have revision := tracked.revision
  have kept : (store.revision - (height : Int)).toNat = chain.length - height := by omega
  refine ⟨tracked.lineage.take _, tracked.revision, ?_⟩
  simp only [UndoStore.commit, kept, List.length_take]
  omega

/-- A commit of what is already committed changes nothing. -/
theorem Tracked.commit_again (tracked : Tracked hashing processing genesis chain committed store)
    {height : Nat} (below : height ≤ committed) : store.commit height = store := by
  have depth := tracked.depth
  have revision := tracked.revision
  have all : store.saved.length ≤ (store.revision - (height : Int)).toNat := by omega
  simp only [UndoStore.commit, List.take_of_length_le all]

end Lineage

namespace Database

variable [DecidableEq Id] {processing : Processing Id Tx H R} {genesis : R}
  {chain : List (Block Id Tx H)} {committed : Nat} {block : Block Id Tx H}
  {database reached : Database hashing R}

/-- A block leaves the pending and the popped transactions alone. -/
theorem tryBlock_frame (processing : Processing Id Tx H R) (block : Block Id Tx H)
    (database : Database hashing R) :
    (left (tryBlock processing block database)).pendingSession = database.pendingSession ∧
      (left (tryBlock processing block database)).pendingTx = database.pendingTx ∧
      (left (tryBlock processing block database)).poppedTx = database.poppedTx := by
  cases prepares : prepared hashing processing block database.store.current with
  | error thrown state =>
    rw [tryBlock_unprepared prepares]
    exact ⟨rfl, rfl, rfl⟩
  | ok _ state =>
    rcases Int.lt_or_le database.store.revision (state.core.lastIrreversibleBlockNum : Int)
      with lost | survives
    · rw [tryBlock_closed prepares lost]
      split
      · exact ⟨rfl, rfl, rfl⟩
      · cases finished hashing processing block state <;> exact ⟨rfl, rfl, rfl⟩
    · rw [tryBlock_open prepares survives]
      split
      · exact ⟨rfl, rfl, rfl⟩
      · split <;> exact ⟨rfl, rfl, rfl⟩

/-- No session is completed after the block has committed its own. -/
def unsquashed (processing : Processing Id Tx H R) (block : Block Id Tx H)
    (database : Database hashing R) : Bool :=
  match prepared hashing processing block database.store.current with
  | .ok _ state =>
    database.store.revision < (state.core.lastIrreversibleBlockNum : Int) →
      completedAll (finishSteps hashing processing block) state = 0
  | .error _ _ => true

/-- The block does not get to a last irreversible block above `limit`. -/
def staysBelow (processing : Processing Id Tx H R) (limit : Nat) (block : Block Id Tx H)
    (database : Database hashing R) : Bool :=
  match prepared hashing processing block database.store.current with
  | .ok _ state => state.core.lastIrreversibleBlockNum ≤ limit
  | .error _ _ => true

theorem completed_of_unsquashed {state : ChainState Id R}
    (quiet : unsquashed processing block database = true)
    (prepares : prepared hashing processing block database.store.current = .ok () state)
    (lost : database.store.revision < (state.core.lastIrreversibleBlockNum : Int)) :
    completedAll (finishSteps hashing processing block) state = 0 := by
  simp only [unsquashed, prepares, decide_eq_true_eq] at quiet
  exact quiet lost

theorem irreversible_of_staysBelow {limit : Nat} {state : ChainState Id R}
    (stays : staysBelow processing limit block database = true)
    (prepares : prepared hashing processing block database.store.current = .ok () state) :
    state.core.lastIrreversibleBlockNum ≤ limit := by
  simpa only [staysBelow, prepares, decide_eq_true_eq] using stays

/-- An applied block is the new head of the chain, and what it made irreversible is
committed. -/
theorem tryBlock_tracked
    (tracked : Tracked hashing processing genesis chain committed database.store)
    (quiet : unsquashed processing block database = true)
    (done : tryBlock processing block database = .ok () reached) :
    Tracked hashing processing genesis (block :: chain)
        (max committed reached.core.lastIrreversibleBlockNum) reached.store ∧
      database.core.lastIrreversibleBlockNum ≤ reached.core.lastIrreversibleBlockNum := by
  cases prepares : prepared hashing processing block database.store.current with
  | error thrown state =>
    rw [tryBlock_unprepared prepares] at done
    cases done
  | ok _ state =>
    obtain ⟨named, _, _, num, computed, raised⟩ := prepared_ok prepares
    obtain ⟨_, below, _⟩ := irreversible_bounds tracked.reached named.symm computed
    have irreversible : state.core.lastIrreversibleBlockNum = num := by rw [raised]
    have revision := tracked.revision
    rcases Int.lt_or_le database.store.revision (state.core.lastIrreversibleBlockNum : Int)
      with lost | survives
    · have none := completed_of_unsquashed quiet prepares lost
      rw [tryBlock_closed prepares lost] at done
      split at done
      · cases done
      · cases finishes : finished hashing processing block state with
        | error thrown after =>
          rw [finishes] at done
          cases done
        | ok _ after =>
          rw [finishes] at done
          cases done
          have whole : applied hashing processing block database.store.current = .ok () after :=
            andThen_ok.mpr ⟨state, prepares, finishes⟩
          have kept := finished_core hashing processing block state
          rw [finishes, left] at kept
          have top : after.core.lastIrreversibleBlockNum = chain.length + 1 := by
            rw [kept]
            dsimp only
            omega
          refine ⟨⟨?_, ?_, ?_⟩, (tracked.reached.step whole).2⟩
          · exact stateAfter_cons.mpr ⟨_, tracked.lineage.replayed, whole⟩
          · simp only [none, List.length_cons]
            omega
          · have depth := tracked.depth
            simp only [core, top, List.length_cons, List.length_nil]
            omega
    · rw [tryBlock_open prepares survives] at done
      split at done
      · cases done
      · split at done
        · cases done
        · rename_i after finishes
          cases done
          have whole : applied hashing processing block database.store.current = .ok () after :=
            andThen_ok.mpr ⟨state, prepares, finishes⟩
          have kept := finished_core hashing processing block state
          rw [finishes, left] at kept
          have same : after.core.lastIrreversibleBlockNum =
              state.core.lastIrreversibleBlockNum := by rw [kept]
          have height : state.core.lastIrreversibleBlockNum ≤ chain.length := by omega
          have lower := tracked.commit height
          refine ⟨⟨⟨whole, lower.lineage⟩, ?_, ?_⟩, (tracked.reached.step whole).2⟩
          · have before := lower.revision
            simp only [UndoStore.put_revision, UndoStore.start_revision, List.length_cons, before]
            omega
          · have before := lower.depth
            simp only [core, UndoStore.put_saved, UndoStore.start_saved, UndoStore.put_current,
              List.length_cons, same]
            omega

/-- A block that fails without raising the committed height leaves the store as it
was. -/
theorem tryBlock_restored {thrown : ChainError}
    (tracked : Tracked hashing processing genesis chain committed database.store)
    (stays : staysBelow processing committed block database = true)
    (failed : tryBlock processing block database = .error thrown reached) :
    reached.store = database.store := by
  cases prepares : prepared hashing processing block database.store.current with
  | error other state =>
    rw [tryBlock_unprepared prepares] at failed
    cases failed
    rfl
  | ok _ state =>
    have below := irreversible_of_staysBelow stays prepares
    have depth := tracked.depth
    have revision := tracked.revision
    have survives : (state.core.lastIrreversibleBlockNum : Int) ≤ database.store.revision := by
      omega
    rw [tryBlock_open prepares survives] at failed
    split at failed
    · cases failed
      exact tracked.commit_again below
    · split at failed
      · cases failed
        exact tracked.commit_again below
      · cases failed

/-- A pop moves the store one block down, unless the history has ended. -/
theorem popBlock_store (idle : database.pendingSession = false)
    (done : database.popBlock = .ok () reached) :
    reached.store = database.store.undo ∧ reached.pendingSession = false := by
  unfold popBlock resetPendingSession at done
  simp only [idle, Bool.false_eq_true, if_false] at done
  split at done
  · cases done
  · split at done
    · cases done
    · cases done
      exact ⟨rfl, rfl⟩

/-- Popping keeps the committed height, however it ends. -/
theorem popUntil_tracked {previous : Id} {fuel : Nat}
    (tracked : Tracked hashing processing genesis chain committed database.store)
    (idle : database.pendingSession = false)
    (done : popUntil previous fuel database = .ok () reached) :
    ∃ count, Tracked hashing processing genesis (chain.drop count) committed reached.store ∧
      reached.pendingSession = false := by
  induction fuel generalizing database chain with
  | zero =>
    unfold popUntil at done
    split at done
    · cases done
      exact ⟨0, by simpa using tracked, idle⟩
    · cases done
  | succ fuel inductionHypothesis =>
    unfold popUntil at done
    split at done
    · cases done
      exact ⟨0, by simpa using tracked, idle⟩
    · obtain ⟨middle, popped, later⟩ := andThen_ok.mp done
      obtain ⟨store, idleNext⟩ := popBlock_store idle popped
      by_cases opened : database.store.saved = []
      · rw [undo_closed opened] at store
        exact inductionHypothesis (store ▸ tracked) idleNext later
      · obtain ⟨block, rest, rfl, lower⟩ := tracked.undo opened
        obtain ⟨count, final⟩ := inductionHypothesis (store ▸ lower) idleNext later
        exact ⟨count + 1, by simpa using final⟩

theorem popUntil_head {previous : Id} {fuel : Nat}
    (done : popUntil previous fuel database = .ok () reached) :
    reached.core.headBlockId = previous := by
  induction fuel generalizing database with
  | zero =>
    unfold popUntil at done
    split at done
    · rename_i same
      cases done
      exact same
    · cases done
  | succ fuel inductionHypothesis =>
    unfold popUntil at done
    split at done
    · rename_i same
      cases done
      exact same
    · obtain ⟨middle, _, later⟩ := andThen_ok.mp done
      exact inductionHypothesis later

/-- Without history nothing is popped, even when the loop gives up. -/
theorem popUntil_closed (previous : Id) (fuel : Nat) (database : Database hashing R)
    (idle : database.pendingSession = false) (closed : database.store.saved = []) :
    (left (popUntil previous fuel database)).store = database.store ∧
      (left (popUntil previous fuel database)).pendingSession = false := by
  induction fuel generalizing database with
  | zero =>
    unfold popUntil
    split <;> exact ⟨rfl, idle⟩
  | succ fuel inductionHypothesis =>
    unfold popUntil
    split
    · exact ⟨rfl, idle⟩
    · cases popped : database.popBlock with
      | ok _ middle =>
        obtain ⟨store, idleNext⟩ := popBlock_store idle popped
        rw [undo_closed closed] at store
        have later := inductionHypothesis middle idleNext (store ▸ closed)
        exact ⟨later.1.trans store, later.2⟩
      | error thrown middle =>
        unfold popBlock resetPendingSession at popped
        simp only [idle, Bool.false_eq_true, if_false] at popped
        split at popped
        · cases popped
          exact ⟨rfl, idle⟩
        · split at popped
          · cases popped
            exact ⟨rfl, idle⟩
          · cases popped

variable {newHead front : ForkItem Id Tx H} {first second failed : List (ForkItem Id Tx H)}

theorem leaveBranch_tracked
    (tracked : Tracked hashing processing genesis chain committed database.store)
    (idle : database.pendingSession = false)
    (done : leaveBranch newHead first front second database = .ok () reached) :
    ∃ count, Tracked hashing processing genesis (chain.drop count) committed reached.store ∧
      reached.pendingSession = false := by
  refine popUntil_tracked ?_ ?_ done
  · exact tracked
  · exact idle

theorem leaveBranch_closed {thrown : ChainError} (idle : database.pendingSession = false)
    (closed : database.store.saved = [])
    (throws : leaveBranch newHead first front second database = .error thrown reached) :
    reached.store = database.store ∧ reached.pendingSession = false := by
  have untouched := popUntil_closed (forkPoint front second)
    (forkHeadNum { database with
      forkDb := database.forkDb.pin (newHead :: first ++ front :: second) })
    { database with forkDb := database.forkDb.pin (newHead :: first ++ front :: second) }
    idle closed
  rw [leaveBranch] at throws
  rwa [throws, left] at untouched

theorem leaveFailed_tracked
    (tracked : Tracked hashing processing genesis chain committed database.store)
    (idle : database.pendingSession = false)
    (done : leaveFailed failed front second database = .ok () reached) :
    ∃ count, Tracked hashing processing genesis (chain.drop count) committed reached.store ∧
      reached.pendingSession = false := by
  refine popUntil_tracked ?_ ?_ done
  · exact tracked
  · exact idle

end Database

end DeipChain.Chain
