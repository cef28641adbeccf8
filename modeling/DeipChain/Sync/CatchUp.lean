import DeipChain.Chain.Acceptance
import DeipChain.Chain.Strand
import DeipChain.Sync.Convergence

/-!
# Catching up with a peer

A node whose chain is the lower end of another one takes the next block of that chain: the fork
database accepts it, it applies because the other node has applied it to the same objects, and
the pointers of the fork database lead to every block that has to be written to the log. Block by
block the node reaches the same objects.
-/
namespace DeipChain.Chain

open Snapshots

variable {Id Tx H R S : Type} {hashing : Hashing Id Tx H}

/-! ## The log -/

section Logs

variable {forkDb pushed : ForkDatabase Id Tx H} {chain : List (Block Id Tx H)}
  {irreversible num : Nat}

/-- The log is written when every block of it can be. -/
theorem Database.writeLog_runs {count : Nat} {log : BlockLog hashing}
    (all : ∀ num, log.blocks.length < num → num ≤ log.blocks.length + count →
      Database.Loggable hashing forkDb num) :
    ∃ longer, Database.writeLog forkDb count log = .ok () longer := by
  induction count generalizing log with
  | zero => exact ⟨log, rfl⟩
  | succ count inductionHypothesis =>
    obtain ⟨item, found, number⟩ := all (log.blocks.length + 1) (by omega) (by omega)
    rw [Database.writeLog, found]
    dsimp only
    cases appended : log.append item.block with
    | none =>
      rw [BlockLog.append, dif_pos number] at appended
      cases appended
    | some longer =>
      obtain ⟨blocks, _⟩ := Database.append_length appended
      have grown : longer.blocks.length = log.blocks.length + 1 := by simp [blocks]
      exact inductionHypothesis (fun num above within => all num (by omega) (by omega))

namespace ForkDatabase

/-- The walk down from a cached block of the chain reaches every height of the window. -/
theorem Strung.walkFrom_runs (strung : Strung hashing chain irreversible forkDb)
    (wired : pushed.Wired hashing) (grows : forkDb.index ⊆ pushed.index) (positive : 0 < num)
    (window : irreversible ≤ num + 1) {fuel : Nat} {item : ForkItem Id Tx H}
    (indexed : item ∈ forkDb.index) (onChain : item.block ∈ chain)
    (enough : hashing.num item.block ≤ fuel) :
    ∃ found, walkFrom hashing pushed num fuel item = some found := by
  induction fuel generalizing item with
  | zero =>
    rw [Hashing.num] at enough
    omega
  | succ fuel inductionHypothesis =>
    rw [walkFrom]
    by_cases above : hashing.num item.block > num
    · rw [if_pos above]
      obtain ⟨upper, base, split, named, lower⟩ := split_of_mem strung.linked onChain
      have height : hashing.num item.block = base.length + 1 := by
        rw [Hashing.num, named, num_tip lower]
      obtain ⟨block, rest, rfl⟩ : ∃ block rest, base = block :: rest := by
        cases base with
        | nil =>
          rw [List.length_nil] at height
          omega
        | cons block rest => exact ⟨block, rest, rfl⟩
      have member : block ∈ chain := by simp [split]
      have number : hashing.num block = rest.length + 1 := num_of_chain lower
      rw [List.length_cons] at height
      obtain ⟨prev, prevIndexed, rfl⟩ := strung.high block member (by omega)
      have pointer := strung.back item indexed onChain prev prevIndexed named.symm
      rw [wired.lock_eq pointer (mem_alive.mpr (.inl (grows prevIndexed))), Option.bind_some]
      exact inductionHypothesis prevIndexed member (by omega)
    · rw [if_neg above]
      exact ⟨item, rfl⟩

variable [DecidableEq Id] {block : Block Id Tx H} {newHead : ForkItem Id Tx H}

/-- A block pushed on top of the chain points to the chain's newest block. -/
theorem Strung.pushed_on (strung : Strung hashing chain irreversible forkDb)
    (accepts : forkDb.pushBlock hashing block = .ok pushed) (top : pushed.head = some newHead)
    (named : newHead.block.previous = tip hashing chain) :
    newHead.block = block ∧ (chain = [] ∨ ∃ below ∈ forkDb.index, below.block ∈ chain ∧
      hashing.num below.block = chain.length ∧ newHead.prev = some below.serial) := by
  have height : hashing.num newHead.block = chain.length + 1 := by
    rw [Hashing.num, named, num_tip strung.linked]
  obtain ⟨pointer, rfl, leads⟩ := pushBlock_inserts accepts
  rcases insertItem_head top with ⟨old, _⟩ | ⟨rfl, _⟩
  · cases chain with
    | nil =>
      rw [(strung.empty rfl).1] at old
      cases old
    | cons first rest =>
      obtain ⟨head, indexed, before, _⟩ := strung.top first rest rfl
      rw [before] at old
      cases old
      have bound := strung.level newHead indexed
      omega
  · refine ⟨rfl, ?_⟩
    dsimp only at named height ⊢
    cases chain with
    | nil => exact .inl rfl
    | cons first rest =>
      right
      rcases leads with ⟨_, headless | null⟩ | ⟨below, found, rfl⟩
      · obtain ⟨head, _, before, _⟩ := strung.top first rest rfl
        rw [headless] at before
        cases before
      · rw [Hashing.num, null, hashing.numFromId_null, List.length_cons] at height
        omega
      · obtain ⟨same, indexed⟩ := fetchBlock_id found
        have newest : below.block = first := hashing.injective (same.trans named)
        refine ⟨below, indexed, newest ▸ List.mem_cons_self, ?_, rfl⟩
        rw [newest]
        exact num_of_chain strung.linked

/-- With a block on top of the chain, every block above the last irreversible one can be written
to the log. -/
theorem Strung.loggable (strung : Strung hashing chain irreversible forkDb)
    (accepts : forkDb.pushBlock hashing block = .ok pushed) (top : pushed.head = some newHead)
    (named : newHead.block.previous = tip hashing chain) (above : irreversible < num)
    (within : num ≤ chain.length + 1) :
    Database.Loggable hashing (pushed.pin [newHead]) num := by
  have headAlive : [newHead] ⊆ pushed.alive := by
    intro item member
    rw [List.mem_singleton] at member
    exact mem_alive.mpr (.inr (.inl (member ▸ top)))
  have wired := (strung.wired.pushBlock accepts).pin headAlive
  obtain ⟨same, below⟩ := strung.pushed_on accepts top named
  have linked : IsChain hashing (newHead.block :: chain) := ⟨named, strung.linked⟩
  have height : hashing.num newHead.block = chain.length + 1 := num_of_chain linked
  obtain ⟨pointer, rfl, _⟩ := pushBlock_inserts accepts
  obtain ⟨other, found⟩ := blockAt_of_le (show 0 < num by omega)
    (show num ≤ (newHead.block :: chain).length from within)
  have number := num_of_blockAt linked found
  have cached : (forkDb.insertItem hashing ⟨forkDb.nextSerial, block, pointer⟩).Cached other := by
    rcases List.mem_cons.mp (mem_of_blockAt found) with rfl | lower
    · exact same ▸ insertItem_cached_new _
    · obtain ⟨item, indexed, equal⟩ := strung.high other lower (by omega)
      exact ⟨item, insertItem_index _ indexed, equal⟩
  obtain ⟨item, indexed, rfl⟩ := cached
  have present : item ∈ ((forkDb.insertItem hashing ⟨forkDb.nextSerial, block, pointer⟩).pin
      [newHead]).fetchBlockByNumber hashing num := by
    rw [fetchBlockByNumber, List.mem_filter]
    exact ⟨indexed, decide_eq_true number⟩
  rw [Database.Loggable, fetchBlockOnMainBranchByNumber]
  split
  · rename_i single alone
    rw [alone, List.mem_singleton] at present
    exact ⟨single, rfl, present ▸ number⟩
  · rename_i empty
    rw [empty] at present
    cases present
  · -- several branches have a block of the height, and the walk takes the one of the chain
    have walks : ∃ reached, walkFrom hashing ((forkDb.insertItem hashing
        ⟨forkDb.nextSerial, block, pointer⟩).pin [newHead]) num (chain.length + 1) newHead =
          some reached := by
      rw [walkFrom]
      split
      · obtain rfl | ⟨prev, prevIndexed, onChain, low, pointer⟩ := below
        · rw [List.length_nil] at height
          omega
        · rw [wired.lock_eq pointer (mem_alive.mpr (.inl (insertItem_index _ prevIndexed))),
            Option.bind_some]
          exact strung.walkFrom_runs wired (insertItem_index _) (by omega) (by omega) prevIndexed
            onChain (Nat.le_of_eq low)
      · exact ⟨newHead, rfl⟩
    obtain ⟨reached, walk⟩ := walks
    refine ⟨reached, ?_, (wired.walkFrom_mem linked ?_ List.mem_cons_self (by omega) walk).2⟩
    · have pinnedTop : ((forkDb.insertItem hashing ⟨forkDb.nextSerial, block, pointer⟩).pin
          [newHead]).head = some newHead := top
      rw [walkMainBranchToNum, pinnedTop, Option.bind_some, if_neg (by omega), height]
      exact walk
    · exact mem_alive.mpr (.inr (.inl top))

end ForkDatabase

end Logs

/-! ## The next block -/

namespace Database

variable [DecidableEq Id] {processing : Processing Id Tx H R} {genesis : R}
  {chain : List (Block Id Tx H)} {committed : Nat} {block : Block Id Tx H}
  {database reached : Database hashing R} {after : ChainState Id R}

/-- A block applies when it applies to the objects and everything it makes irreversible can be
written to the log. -/
theorem tryBlock_runs
    (done : applied hashing processing block database.store.current = .ok () after)
    (all : ∀ num, database.blockLog.blocks.length < num →
      num ≤ after.core.lastIrreversibleBlockNum → Loggable hashing database.forkDb num) :
    ∃ reached, tryBlock processing block database = .ok () reached ∧
      reached.store.current = after := by
  obtain ⟨state, prepares, finishes, written⟩ := applied_ok done
  have same : after.core.lastIrreversibleBlockNum = state.core.lastIrreversibleBlockNum := by
    rw [written]
  obtain ⟨log, wrote⟩ := @writeLog_runs _ _ _ hashing database.forkDb
    (state.core.lastIrreversibleBlockNum - database.blockLog.blocks.length) database.blockLog
    (fun num above within => all num above (by omega))
  rcases Int.lt_or_le database.store.revision (state.core.lastIrreversibleBlockNum : Int)
    with lost | survives
  · rw [tryBlock_closed prepares lost, wrote, finishes]
    exact ⟨_, rfl, rfl⟩
  · rw [tryBlock_open prepares survives, wrote, finishes]
    exact ⟨_, rfl, rfl⟩

/-- No block of the chain completes a session after a commit of its own. -/
def calm (hashing : Hashing Id Tx H) (processing : Processing Id Tx H R) (genesis : R) :
    List (Block Id Tx H) → Bool
  | [] => true
  | block :: rest =>
    calm hashing processing genesis rest &&
      match stateAfter hashing processing genesis rest with
      | none => true
      | some before =>
        match prepared hashing processing block before with
        | .ok _ state =>
          rest.length < state.core.lastIrreversibleBlockNum →
            completedAll (finishSteps hashing processing block) state = 0
        | .error _ _ => true

theorem calm_append {above : List (Block Id Tx H)}
    (quiet : calm hashing processing genesis (above ++ chain) = true) :
    calm hashing processing genesis chain = true := by
  induction above with
  | nil => exact quiet
  | cons block rest inductionHypothesis =>
    rw [List.cons_append, calm, Bool.and_eq_true] at quiet
    exact inductionHypothesis quiet.1

/-- A node at rest whose two heads are on one chain. -/
structure InStep (processing : Processing Id Tx H R) (genesis : R) (chain : List (Block Id Tx H))
    (committed : Nat) (database : Database hashing R) : Prop where
  quiescent : Quiescent processing genesis chain committed database
  aligned : Aligned processing genesis chain database

theorem inStep_genesis (processing : Processing Id Tx H R) (genesis : R) :
    InStep processing genesis [] 0 (Database.genesis hashing genesis) :=
  ⟨quiescent_genesis processing genesis, aligned_genesis processing genesis⟩

/-- The next block of a chain goes through on top of the node's own. -/
theorem InStep.pushUnprotected (inStep : InStep processing genesis chain committed database)
    (next : stateAfter hashing processing genesis (block :: chain) = some after)
    (quiet : calm hashing processing genesis (block :: chain) = true) :
    (∃ reached, pushUnprotected processing block database.clearPending = .ok false reached ∧
        reached.store.current = after) ∧
      smooth processing block database.clearPending = true ∧
      straight processing block database.clearPending = true := by
  obtain ⟨⟨resting, _, _⟩, ⟨together, _, _, _⟩⟩ := inStep
  obtain ⟨state, before, done⟩ := stateAfter_cons.mp next
  obtain rfl : state = database.clearPending.store.current :=
    Option.some.inj (before.symm.trans together.replayed)
  have reachedCore := stateAfter_reached together.replayed
  have head : database.clearPending.core.headBlockId = tip hashing chain := reachedCore.head
  obtain ⟨reachedNext, _⟩ := reachedCore.step done
  have onHead : block.previous = database.clearPending.core.headBlockId :=
    reachedNext.linked.1.trans head.symm
  have attached : Attached database.clearPending := by
    intro item top
    cases chain with
    | nil =>
      rw [(together.strung.empty rfl).1] at top
      cases top
    | cons first rest =>
      obtain ⟨other, indexed, same, rfl⟩ := together.strung.top first rest rfl
      rw [same, Option.some.injEq] at top
      subst top
      refine ⟨head.symm, ?_⟩
      rw [← Option.isSome_iff_exists, ForkDatabase.fetchBlock, List.find?_isSome]
      exact ⟨other, indexed, by simp [head, tip]⟩
  obtain ⟨forkDb, newHead, accepts, top, same⟩ := attached.pushBlock onHead
  have named : newHead.block.previous = tip hashing chain := by rw [same, onHead, head]
  obtain ⟨reached, tried, current⟩ := @tryBlock_runs _ _ _ _ hashing _ processing block
    { database.clearPending with forkDb := forkDb.pin [newHead] } after done
    (fun num above within => by
      have bound := reachedNext.irreversible
      rw [List.length_cons] at bound
      have logged := resting.anchored.logged
      have irreversible := resting.anchored.irreversible
      dsimp only at above
      exact together.strung.loggable accepts top named (by omega) (by omega))
  have pushed : Database.pushUnprotected processing block database.clearPending =
      .ok false reached := by
    simp only [Database.pushUnprotected, accepts, top, same, onHead, ne_eq, not_true_eq_false,
      if_false, tried]
  refine ⟨⟨reached, pushed, current⟩, ?_, ?_⟩
  · simp only [smooth, accepts, pushed, top, same, onHead, thrownBy, Option.isNone_none,
      Bool.true_and, ne_eq, not_true_eq_false, if_false, unsquashed]
    have revision := resting.anchored.tracked.revision
    have own := (Bool.and_eq_true_iff.mp quiet).2
    simp only [before] at own
    cases prepares : prepared hashing processing block database.clearPending.store.current with
    | error thrown state => rfl
    | ok _ state =>
      rw [prepares] at own
      simp only [decide_eq_true_eq] at own ⊢
      exact fun lost => own (by omega)
  · simp [straight, attemptsSwitch, accepts, pushed, top, same, onHead, thrownBy]

/-- The next block of a chain is accepted, and leaves the node on the longer chain. -/
theorem InStep.pushBlock (inStep : InStep processing genesis chain committed database)
    (next : stateAfter hashing processing genesis (block :: chain) = some after)
    (quiet : calm hashing processing genesis (block :: chain) = true) :
    ∃ reached raised, Database.pushBlock processing block database = .ok false reached ∧
      InStep processing genesis (block :: chain) raised reached ∧ committed ≤ raised := by
  obtain ⟨⟨middle, pushed, current⟩, smoothly, straightly⟩ := inStep.pushUnprotected next quiet
  have accepted : Database.pushBlock processing block database =
      .ok false (finishPush processing database.pendingTx middle) := by
    rw [Database.pushBlock, pushed]
  obtain ⟨chainNext, raised, quiescent, higher, _, _⟩ := @afterCall_quiescent _ _ _ _ _ _ processing
    genesis chain committed database (.pushBlock block) [] inStep.quiescent
    (by rw [smoothRun, smoothRun, smoothly]; rfl)
  obtain ⟨chainAgain, aligned, _⟩ := @afterCall_aligned _ _ _ _ _ _ processing genesis chain
    database (.pushBlock block) [] inStep.aligned
    (by rw [straightRun, straightRun, straightly]; rfl)
  rw [afterCall, accepted, left] at quiescent aligned
  -- the two invariants and the application give one chain
  have idle : middle.pendingSession = false := by
    have frame := @pushUnprotected_idle _ _ _ _ _ _ processing database.clearPending block
      (clearPending_idle database)
    rwa [pushed] at frame
  obtain ⟨settled, _⟩ := @finishPush_settled _ _ _ _ _ processing _ database.pendingTx idle
  have whole : AppliedChain processing genesis (block :: chain)
      (finishPush processing database.pendingTx middle) := by
    rw [AppliedChain, settled, current]
    exact next
  obtain rfl := whole.unique quiescent.resting.anchored.tracked.lineage.replayed
  obtain rfl := whole.unique aligned.together.replayed
  exact ⟨_, raised, accepted, ⟨quiescent, aligned⟩, higher⟩

/-- A pending transaction leaves the node on its chain. -/
theorem InStep.pushTransaction (inStep : InStep processing genesis chain committed database)
    (transaction : Tx) :
    ∃ raised, InStep processing genesis chain raised
      (afterCall processing (.pushTransaction transaction) database) ∧ committed ≤ raised := by
  obtain ⟨chainNext, raised, quiescent, higher, _, _⟩ := @afterCall_quiescent _ _ _ _ _ _ processing
    genesis chain committed database (.pushTransaction transaction) [] inStep.quiescent rfl
  obtain ⟨chainAgain, aligned, _⟩ := @afterCall_aligned _ _ _ _ _ _ processing genesis chain
    database (.pushTransaction transaction) [] inStep.aligned rfl
  obtain ⟨settled, _⟩ :=
    @pushPending_settled _ _ _ _ _ processing _ transaction inStep.aligned.opened
  have same : AppliedChain processing genesis chain
      (afterCall processing (.pushTransaction transaction) database) := by
    rw [AppliedChain, afterCall, settled]
    exact inStep.aligned.together.replayed
  obtain rfl := same.unique quiescent.resting.anchored.tracked.lineage.replayed
  obtain rfl := same.unique aligned.together.replayed
  exact ⟨raised, ⟨quiescent, aligned⟩, higher⟩

/-- The blocks that a run pushes. -/
def pushedBlocks : List (Call Id Tx H) → List (Block Id Tx H)
  | [] => []
  | .pushBlock block :: rest => block :: pushedBlocks rest
  | .pushTransaction _ :: rest => pushedBlocks rest

/-- Every push of the run returns, and none switches forks. -/
def Extending (processing : Processing Id Tx H R) :
    List (Call Id Tx H) → Database hashing R → Prop
  | [], _ => True
  | .pushBlock block :: rest, database =>
    (∃ reached, Database.pushBlock processing block database = .ok false reached) ∧
      Extending processing rest (afterCall processing (.pushBlock block) database)
  | .pushTransaction transaction :: rest, database =>
    Extending processing rest (afterCall processing (.pushTransaction transaction) database)

omit [DecidableEq Id] in
theorem stateAfter_append {above : List (Block Id Tx H)} [DecidableEq Id]
    (replayed : stateAfter hashing processing genesis (above ++ chain) = some after) :
    ∃ state, stateAfter hashing processing genesis chain = some state := by
  induction above generalizing after with
  | nil => exact ⟨after, replayed⟩
  | cons block rest inductionHypothesis =>
    obtain ⟨state, before, _⟩ := stateAfter_cons.mp replayed
    exact inductionHypothesis before

/-- The blocks of a longer chain go through one after the other. -/
theorem InStep.run (calls : List (Call Id Tx H))
    (inStep : InStep processing genesis chain committed database)
    (longer : stateAfter hashing processing genesis ((pushedBlocks calls).reverse ++ chain) =
      some after)
    (quiet : calm hashing processing genesis ((pushedBlocks calls).reverse ++ chain) = true) :
    Extending processing calls database ∧
      ∃ raised, InStep processing genesis ((pushedBlocks calls).reverse ++ chain) raised
        (afterCalls processing calls database) ∧ committed ≤ raised := by
  induction calls generalizing chain committed database with
  | nil => exact ⟨trivial, committed, inStep, Nat.le_refl _⟩
  | cons call rest inductionHypothesis =>
    cases call with
    | pushTransaction transaction =>
      obtain ⟨middle, next, higher⟩ := inStep.pushTransaction transaction
      obtain ⟨extending, raised, final, highest⟩ := inductionHypothesis next longer quiet
      exact ⟨extending, raised, final, higher.trans highest⟩
    | pushBlock block =>
      rw [pushedBlocks, List.reverse_cons, List.append_assoc, List.singleton_append] at longer quiet
      obtain ⟨state, next⟩ := stateAfter_append longer
      obtain ⟨reached, middle, accepted, followed, higher⟩ :=
        inStep.pushBlock next (calm_append quiet)
      have after : afterCall processing (.pushBlock block) database = reached := by
        rw [afterCall, accepted]
        rfl
      obtain ⟨extending, raised, final, highest⟩ := inductionHypothesis followed longer quiet
      refine ⟨⟨⟨reached, accepted⟩, after ▸ extending⟩, raised, ?_, higher.trans highest⟩
      rw [pushedBlocks, List.reverse_cons, List.append_assoc, List.singleton_append, afterCalls,
        after]
      exact final

/-- A straight and smooth run keeps the two heads on one chain. -/
theorem afterCalls_inStep (calls : List (Call Id Tx H))
    (inStep : InStep processing genesis chain committed database)
    (smoothly : smoothRun processing calls database = true)
    (straightly : straightRun processing calls database = true) :
    ∃ next raised, InStep processing genesis next raised (afterCalls processing calls database) ∧
      committed ≤ raised ∧ AgreeBelow committed chain next := by
  induction calls generalizing chain committed database with
  | nil => exact ⟨chain, committed, inStep, Nat.le_refl _, fun _ _ => rfl⟩
  | cons call rest inductionHypothesis =>
    obtain ⟨middle, between, quiescent, higher, agree, smoothLater⟩ :=
      afterCall_quiescent inStep.quiescent smoothly
    obtain ⟨again, aligned, straightLater⟩ := afterCall_aligned inStep.aligned straightly
    obtain rfl : middle = again :=
      @AppliedChain.unique _ _ _ _ hashing _ processing genesis middle again
        (afterCall processing call database) quiescent.resting.anchored.tracked.lineage.replayed
        aligned.together.replayed
    obtain ⟨next, raised, final, highest, agreeNext⟩ :=
      inductionHypothesis ⟨quiescent, aligned⟩ smoothLater straightLater
    exact ⟨next, raised, final, higher.trans highest, fun height low =>
      (agreeNext height (low.trans higher)).trans (agree height low)⟩

/-- A node on the lower end of another node's chain takes the other blocks, oldest first and with
any transactions in between, without a switch of forks, and has the objects of that node then. -/
theorem catch_up (hashing : Hashing Id Tx H) (processing : Processing Id Tx H R) (genesis : R)
    (ownCalls calls : List (Call Id Tx H)) (chain : List (Block Id Tx H))
    (own other : Database hashing R)
    (reaches : own = afterCalls processing ownCalls (Database.genesis hashing genesis))
    (smoothly : smoothRun processing ownCalls (Database.genesis hashing genesis) = true)
    (straightly : straightRun processing ownCalls (Database.genesis hashing genesis) = true)
    (applied : AppliedChain processing genesis chain own)
    (otherApplied :
      AppliedChain processing genesis ((pushedBlocks calls).reverse ++ chain) other)
    (quiet : calm hashing processing genesis ((pushedBlocks calls).reverse ++ chain) = true) :
    Extending processing calls own ∧
      (afterCalls processing calls own).clearPending.store.current =
        other.clearPending.store.current ∧
      HeadsAgree ((pushedBlocks calls).reverse ++ chain) (afterCalls processing calls own) ∧
      LogHolds ((pushedBlocks calls).reverse ++ chain) (afterCalls processing calls own) := by
  obtain ⟨ownChain, committed, inStep, _⟩ :=
    afterCalls_inStep ownCalls (inStep_genesis processing genesis) smoothly straightly
  rw [← reaches] at inStep
  obtain rfl := applied.unique inStep.aligned.together.replayed
  obtain ⟨extending, raised, final, _⟩ := inStep.run calls otherApplied quiet
  have same := final.aligned.together.replayed.symm.trans otherApplied
  exact ⟨extending, Option.some.inj same, final.aligned.headsAgree, final.quiescent.logHolds⟩

end Database

/-! ## The rest of a longer chain -/

namespace SignedChain

/-- Three blocks of another node, with a transaction in between. -/
theorem longer_chain_caught_up :
    Database.Extending processing
        (pushes "alice" (branch "alice" 1 []) 2 ++ .pushTransaction () ::
          pushes "alice" (branch "alice" 3 []) 1) asking ∧
      (Database.afterCalls processing
          (pushes "alice" (branch "alice" 1 []) 2 ++ .pushTransaction () ::
            pushes "alice" (branch "alice" 3 []) 1) asking).clearPending.store.current =
        ahead.clearPending.store.current := by
  obtain ⟨extending, same, _⟩ := Database.catch_up (Hashing.spelled Unit Bool) processing ()
    (pushes "alice" [] 1)
    (pushes "alice" (branch "alice" 1 []) 2 ++ .pushTransaction () ::
      pushes "alice" (branch "alice" 3 []) 1) (aliceBlocks 1) asking ahead rfl
    (by decide +kernel) (by decide +kernel) (by unfold Database.AppliedChain; decide +kernel)
    (by unfold Database.AppliedChain; decide +kernel) (by decide +kernel)
  exact ⟨extending, same⟩

end SignedChain

end DeipChain.Chain
