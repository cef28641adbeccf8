import DeipChain.Chain.Branches
import DeipChain.Chain.Revision

/-!
# The block log and the applied chain

The log is written from the fork database, by height. What keeps it on the applied chain
is that the chain's blocks above the end of the log are all in the index, that the head
of the fork database is on the chain whenever a block is applied, and that the history is
committed as far as the log goes, so that no logged block is ever popped. `Anchored` says
so. It is kept by every push that the fork database refuses and by every push that
returns. A block that was accepted by the fork database and fails can take an applied
block out of the index or leave the head of the fork database off the chain.
-/
namespace DeipChain.Chain

open Snapshots

variable {Id Tx H R : Type} {hashing : Hashing Id Tx H}

/-- The second block lies `count` blocks below the first. -/
def Below (hashing : Hashing Id Tx H) : Nat → Block Id Tx H → Block Id Tx H → Prop
  | 0, upper, lower => upper = lower
  | count + 1, upper, lower =>
    ∃ middle, hashing.id middle = upper.previous ∧ Below hashing count middle lower

theorem Below.mem {whole : List (Block Id Tx H)} (linked : IsChain hashing whole) {count : Nat}
    {upper lower : Block Id Tx H} (below : Below hashing count upper lower)
    (member : upper ∈ whole) : lower ∈ whole := by
  induction count generalizing upper with
  | zero => exact below ▸ member
  | succ count inductionHypothesis =>
    obtain ⟨middle, named, further⟩ := below
    exact inductionHypothesis further (mem_previous linked member named)

theorem Below.num {count : Nat} {upper lower : Block Id Tx H}
    (below : Below hashing count upper lower) :
    hashing.num lower + count = hashing.num upper := by
  induction count generalizing upper with
  | zero => rw [below, Nat.add_zero]
  | succ count inductionHypothesis =>
    obtain ⟨middle, named, further⟩ := below
    rw [num_of_previous named, ← inductionHypothesis further, Nat.add_assoc]

/-- Two chains agree up to a height. -/
def AgreeBelow (height : Nat) (chain other : List (Block Id Tx H)) : Prop :=
  ∀ at_ ≤ height, blockAt other at_ = blockAt chain at_

theorem agreeBelow_drop {chain : List (Block Id Tx H)} {committed count : Nat}
    (above : List (Block Id Tx H))
    (within : committed ≤ (chain.drop count).length) :
    AgreeBelow committed chain (above ++ chain.drop count) := by
  intro at_ low
  have below : blockAt chain at_ = blockAt (chain.drop count) at_ := by
    conv_lhs => rw [← List.take_append_drop count chain]
    exact blockAt_append (by omega)
  rw [blockAt_append (by omega), below]

namespace Database

/-- A log written from cached blocks of a chain holds blocks of the chain. -/
theorem writeLog_faithful {forkDb : ForkDatabase Id Tx H} {whole : List (Block Id Tx H)}
    (linked : IsChain hashing whole) (wired : forkDb.Wired hashing) {head : ForkItem Id Tx H}
    (top : forkDb.head = some head) (onChain : head.block ∈ whole) {count : Nat}
    {log longer : BlockLog hashing}
    (cached : ∀ num, log.blocks.length < num → num ≤ log.blocks.length + count →
      ∃ block ∈ whole, hashing.num block = num ∧ forkDb.Cached block)
    (done : writeLog forkDb count log = .ok () longer) :
    longer.blocks.length = log.blocks.length + count ∧
      ∀ block ∈ longer.blocks, block ∈ log.blocks ∨
        (block ∈ whole ∧ hashing.num block ≤ log.blocks.length + count) := by
  induction count generalizing log with
  | zero =>
    cases done
    exact ⟨rfl, fun block member => .inl member⟩
  | succ count inductionHypothesis =>
    unfold writeLog at done
    split at done
    · cases done
    · rename_i item fetched
      split at done
      · cases done
      · rename_i next appended
        obtain ⟨block, member, height, inIndex⟩ := cached (log.blocks.length + 1) (by omega) (by omega)
        rw [← height] at fetched
        have same := wired.fetch_onChain linked top onChain member inIndex fetched
        obtain ⟨blocks, _⟩ := append_length appended
        have grown : next.blocks.length = log.blocks.length + 1 := by simp [blocks]
        obtain ⟨length, rest⟩ := inductionHypothesis
          (fun num above within => cached num (by omega) (by omega)) done
        refine ⟨by omega, fun other memberOther => ?_⟩
        rcases rest other memberOther with earlier | ⟨inWhole, low⟩
        · rw [blocks, List.mem_append, List.mem_singleton] at earlier
          rcases earlier with old | rfl
          · exact .inl old
          · rw [same]
            exact .inr ⟨member, by omega⟩
        · exact .inr ⟨inWhole, by omega⟩

variable [DecidableEq Id]

/-- The node has applied `chain`, the lower part of `whole`, and holds what it needs to
write `whole` to the log. -/
structure Anchored (processing : Processing Id Tx H R) (genesis : R)
    (whole chain : List (Block Id Tx H)) (committed : Nat) (database : Database hashing R) :
    Prop where
  tracked : Tracked hashing processing genesis chain committed database.store
  lower : ∃ ahead, whole = ahead ++ chain
  linked : IsChain hashing whole
  irreversible : database.core.lastIrreversibleBlockNum ≤ committed
  logged : database.blockLog.blocks.length = committed
  faithful : ∀ block ∈ database.blockLog.blocks, block ∈ chain
  wired : database.forkDb.Wired hashing
  cached : ∀ block ∈ whole, committed < hashing.num block → database.forkDb.Cached block
  headCached : ∀ head, database.forkDb.head = some head → database.forkDb.Cached head.block

variable {processing : Processing Id Tx H R} {genesis : R}
  {whole ahead chain : List (Block Id Tx H)} {committed : Nat} {block : Block Id Tx H}
  {head : ForkItem Id Tx H} {database reached : Database hashing R}

/-- An applied block keeps the node anchored. -/
theorem tryBlock_anchored
    (anchored : Anchored processing genesis (ahead ++ block :: chain) chain committed database)
    (top : database.forkDb.head = some head) (onChain : head.block ∈ ahead ++ block :: chain)
    (low : hashing.num head.block ≤ chain.length + 1)
    (quiet : unsquashed processing block database = true)
    (done : tryBlock processing block database = .ok () reached) :
    Anchored processing genesis (ahead ++ block :: chain) (block :: chain)
        (max committed reached.core.lastIrreversibleBlockNum) reached ∧
      reached.forkDb.head = some head ∧ reached.forkDb.index ⊆ database.forkDb.index := by
  obtain ⟨tracked, _⟩ := tryBlock_tracked anchored.tracked quiet done
  obtain ⟨state, prepares, _, irreversible, wrote, trimmed⟩ := tryBlock_ok done
  obtain ⟨_, _, _, num, _, raised⟩ := prepared_ok prepares
  have linked := anchored.linked
  have bound := tracked.reached.irreversible
  have height : hashing.num block = chain.length + 1 := num_of_chain tracked.reached.linked
  have headed : state.core.headBlockNumber = chain.length + 1 := by
    rw [raised]
    exact height
  simp only [core, List.length_cons] at bound irreversible
  obtain ⟨length, blocks⟩ := writeLog_faithful linked anchored.wired top onChain
    (fun n above within => by
      rw [anchored.logged] at above within
      have short : n ≤ (ahead ++ block :: chain).length := by
        rw [List.length_append, List.length_cons]
        omega
      obtain ⟨other, found⟩ := blockAt_of_le (by omega) short
      have same := num_of_blockAt linked found
      have member := mem_of_blockAt found
      exact ⟨other, member, same, anchored.cached other member (by omega)⟩) wrote
  rw [anchored.logged] at length blocks
  -- the head of the fork database is at most the new block, so nothing above the last
  -- irreversible block is trimmed
  have kept : ∀ other, database.forkDb.Cached other →
      state.core.lastIrreversibleBlockNum < hashing.num other ∨ other = head.block →
        reached.forkDb.Cached other := by
    intro other inIndex high
    rw [trimmed]
    refine inIndex.setMaxSize (fun old before => ?_)
    rw [top] at before
    cases before
    rcases high with above | rfl
    · omega
    · exact Nat.sub_le _ _
  refine ⟨⟨tracked, ⟨ahead, rfl⟩, linked, Nat.le_max_right _ _, ?_, fun other member => ?_, ?_,
    fun other member above => ?_, fun other same => ?_⟩, ?_, ?_⟩
  · simp only [core, irreversible]
    omega
  · rcases blocks other member with old | ⟨inWhole, within⟩
    · exact List.mem_cons_of_mem _ (anchored.faithful other old)
    · have depth := anchored.tracked.depth
      refine mem_lower linked inWhole ?_
      rw [List.length_cons]
      omega
  · rw [trimmed]
    exact anchored.wired.setMaxSize _
  · simp only [core, irreversible] at above
    exact kept other (anchored.cached other member (by omega)) (.inl (by omega))
  · rw [trimmed, ForkDatabase.setMaxSize_head, top] at same
    cases same
    exact kept _ (anchored.headCached head top) (.inr rfl)
  · rw [trimmed, ForkDatabase.setMaxSize_head, top]
  · rw [trimmed]
    exact ForkDatabase.setMaxSize_index _

/-- A branch that applies keeps the node anchored. -/
theorem pushBranch_anchored {items : List (ForkItem Id Tx H)}
    (anchored : Anchored processing genesis ((items.map ForkItem.block).reverse ++ chain) chain
      committed database)
    (top : database.forkDb.head = some head)
    (onChain : head.block ∈ (items.map ForkItem.block).reverse ++ chain)
    (low : hashing.num head.block ≤ chain.length + 1)
    (quiet : branchUnsquashed processing items database = true)
    (done : pushBranch processing items database = .ok () reached) :
    ∃ raised, Anchored processing genesis ((items.map ForkItem.block).reverse ++ chain)
        ((items.map ForkItem.block).reverse ++ chain) raised reached ∧
      committed ≤ raised ∧ reached.forkDb.head = some head ∧
      reached.forkDb.index ⊆ database.forkDb.index ∧
      reached.pendingSession = database.pendingSession := by
  induction items generalizing database chain committed with
  | nil =>
    simp only [pushBranch, EStateM.Result.ok.injEq, true_and] at done
    subst done
    exact ⟨committed, anchored, Nat.le_refl _, top, fun _ member => member, rfl⟩
  | cons item rest inductionHypothesis =>
    obtain ⟨quiet, later⟩ := Bool.and_eq_true_iff.mp quiet
    have split : ((item :: rest).map ForkItem.block).reverse ++ chain =
        (rest.map ForkItem.block).reverse ++ item.block :: chain := by simp
    rw [split] at anchored onChain ⊢
    unfold pushBranch at done
    have frame := tryBlock_frame processing item.block database
    cases tried : tryBlock processing item.block database with
    | error thrown middle =>
      rw [tried] at done
      cases done
    | ok _ middle =>
      rw [tried] at done later frame
      obtain ⟨next, same, fewer⟩ := tryBlock_anchored anchored top onChain low quiet tried
      obtain ⟨raised, final, higher, headFinal, fewerFinal, idle⟩ :=
        inductionHypothesis next same onChain (by rw [List.length_cons]; omega) later done
      exact ⟨raised, final, Nat.le_trans (Nat.le_max_left _ _) higher, headFinal,
        fun _ member => fewer (fewerFinal member), idle.trans frame.1⟩

/-- What a pop does to the fork database and to the store. -/
theorem popBlock_ok (idle : database.pendingSession = false)
    (done : database.popBlock = .ok () reached) :
    ∃ head prev, database.forkDb.head = some head ∧ database.forkDb.lock head = some prev ∧
      reached.forkDb = database.forkDb.setHead prev ∧
      reached.blockLog = database.blockLog := by
  unfold popBlock resetPendingSession at done
  simp only [idle, Bool.false_eq_true, if_false] at done
  split at done
  · cases done
  · split at done
    · cases done
    · rename_i forkDb popped
      cases done
      unfold ForkDatabase.popBlock at popped
      split at popped
      · cases popped
      · rename_i head top
        split at popped
        · cases popped
        · rename_i prev locked
          cases popped
          exact ⟨head, prev, top, locked, rfl, rfl⟩

/-- Popping down to a block takes the same number of blocks from the chain and from the
head of the fork database. -/
theorem popUntil_below {previous : Id} {fuel : Nat}
    (tracked : Tracked hashing processing genesis chain committed database.store)
    (idle : database.pendingSession = false) (wired : database.forkDb.Wired hashing)
    (top : database.forkDb.head = some head)
    (done : popUntil previous fuel database = .ok () reached) :
    ∃ count last, Tracked hashing processing genesis (chain.drop count) committed reached.store ∧
      count ≤ chain.length ∧ Below hashing count head.block last.block ∧
      last ∈ database.forkDb.alive ∧ reached.forkDb = database.forkDb.setHead last ∧
      reached.blockLog = database.blockLog ∧ reached.pendingSession = false := by
  induction fuel generalizing database chain head with
  | zero =>
    unfold popUntil at done
    split at done
    · cases done
      refine ⟨0, head, tracked, Nat.zero_le _, rfl, ForkDatabase.mem_alive.mpr (.inr (.inl top)),
        ?_, rfl, idle⟩
      rw [ForkDatabase.setHead, ← top]
    · cases done
  | succ fuel inductionHypothesis =>
    have whole := done
    unfold popUntil at done
    split at done
    · cases done
      refine ⟨0, head, tracked, Nat.zero_le _, rfl, ForkDatabase.mem_alive.mpr (.inr (.inl top)),
        ?_, rfl, idle⟩
      rw [ForkDatabase.setHead, ← top]
    · rename_i apart
      obtain ⟨middle, popped, later⟩ := andThen_ok.mp done
      obtain ⟨store, idleNext⟩ := popBlock_store idle popped
      obtain ⟨old, prev, before, locked, forkDb, log⟩ := popBlock_ok idle popped
      rw [top] at before
      cases before
      have headAlive : head ∈ database.forkDb.alive :=
        ForkDatabase.mem_alive.mpr (.inr (.inl top))
      have prevAlive := (ForkDatabase.lock_some locked).1
      have named := wired.lock_previous headAlive locked
      -- without a session left the loop could not have reached the block
      have opened : database.store.saved ≠ [] := by
        intro closed
        have untouched := (popUntil_closed previous (fuel + 1) database idle closed).1
        have arrived := popUntil_head whole
        rw [whole, left] at untouched
        rw [core, untouched] at arrived
        exact apart arrived
      obtain ⟨block, rest, rfl, lower⟩ := tracked.undo opened
      have wiredNext : middle.forkDb.Wired hashing := forkDb ▸ wired.setHead prevAlive
      obtain ⟨count, last, final, within, below, alive, forkDbFinal, logFinal, idleFinal⟩ :=
        inductionHypothesis (store ▸ lower) idleNext wiredNext (by rw [forkDb]; rfl) later
      refine ⟨count + 1, last, by simpa using final, by simpa using within,
        ⟨prev.block, named, below⟩, ?_, ?_, logFinal.trans log, idleFinal⟩
      · rw [forkDb] at alive
        rcases ForkDatabase.mem_alive.mp alive with indexed | headed | pinned
        · exact ForkDatabase.mem_alive.mpr (.inl indexed)
        · cases headed
          exact prevAlive
        · exact ForkDatabase.mem_alive.mpr (.inr (.inr pinned))
      · rw [forkDbFinal, forkDb]
        rfl

/-- Popping keeps the node anchored, with a new branch ahead whose blocks are cached. -/
theorem leaveBranch_anchored {newHead front : ForkItem Id Tx H}
    {first second : List (ForkItem Id Tx H)}
    (anchored : Anchored processing genesis chain chain committed database)
    (idle : database.pendingSession = false) (top : database.forkDb.head = some newHead)
    (held : first ++ front :: second ⊆ database.forkDb.alive)
    (allCached : ∀ item ∈ database.forkDb.alive, database.forkDb.Cached item.block)
    (done : leaveBranch newHead first front second database = .ok () reached) :
    ∃ count last, Tracked hashing processing genesis (chain.drop count) committed reached.store ∧
      count ≤ chain.length ∧ Below hashing count newHead.block last.block ∧
      reached.forkDb.head = some last ∧ reached.forkDb.index = database.forkDb.index ∧
      reached.pendingSession = false ∧
      ∀ ahead : List (Block Id Tx H), IsChain hashing (ahead ++ chain.drop count) →
        (∀ block ∈ ahead, database.forkDb.Cached block) →
        Anchored processing genesis (ahead ++ chain.drop count) (chain.drop count) committed
          reached := by
  have newAlive : newHead ∈ database.forkDb.alive := ForkDatabase.mem_alive.mpr (.inr (.inl top))
  have wired : (database.forkDb.pin (newHead :: first ++ front :: second)).Wired hashing :=
    anchored.wired.pin (List.cons_subset.mpr ⟨newAlive, held⟩)
  obtain ⟨count, last, lower, within, below, alive, forkDb, log, idleReached⟩ :=
    @popUntil_below _ _ _ _ hashing _ processing genesis chain committed newHead
      { database with forkDb := database.forkDb.pin (newHead :: first ++ front :: second) } _ _ _
      anchored.tracked idle wired top done
  dsimp only at log
  have lastAlive : last ∈ database.forkDb.alive := by
    rcases ForkDatabase.mem_alive.mp alive with indexed | headed | pinned
    · exact ForkDatabase.mem_alive.mpr (.inl indexed)
    · exact ForkDatabase.mem_alive.mpr (.inr (.inl headed))
    · exact List.cons_subset.mpr ⟨newAlive, held⟩ pinned
  refine ⟨count, last, lower, within, below, by rw [forkDb]; rfl, by rw [forkDb]; rfl,
    idleReached, fun ahead linked cachedAhead => ?_⟩
  have depth := lower.depth
  refine ⟨lower, ⟨ahead, rfl⟩, linked, ?_, ?_, fun block member => ?_, ?_,
    fun block member above => ?_, fun other same => ?_⟩
  · exact Nat.le_trans (stateAfter_irreversible anchored.tracked.lineage.replayed
      lower.lineage.replayed) anchored.irreversible
  · rw [log]
    exact anchored.logged
  · rw [log] at member
    have onChain := anchored.faithful block member
    obtain ⟨position, bound, found⟩ := List.mem_iff_getElem.mp member
    have height := database.blockLog.numbered position block
      (List.getElem?_eq_some_iff.mpr ⟨bound, found⟩)
    have length := anchored.logged
    have linkedChain := anchored.linked
    rw [← List.take_append_drop count chain] at onChain linkedChain
    exact mem_lower linkedChain onChain (by omega)
  · rw [forkDb]
    exact wired.setHead alive
  · have same : reached.forkDb.index = database.forkDb.index := by rw [forkDb]; rfl
    rcases List.mem_append.mp member with inAhead | inChain
    · obtain ⟨item, indexed, named⟩ := cachedAhead block inAhead
      exact ⟨item, same ▸ indexed, named⟩
    · obtain ⟨item, indexed, named⟩ :=
        anchored.cached block (List.drop_subset _ _ inChain) above
      exact ⟨item, same ▸ indexed, named⟩
  · rw [forkDb] at same
    cases same
    obtain ⟨item, indexed, named⟩ := allCached last lastAlive
    exact ⟨item, by rw [forkDb]; exact indexed, named⟩

/-- No block of the new branch completes a session after the commit of its own. -/
def switchUnsquashed (processing : Processing Id Tx H R) (newHead : ForkItem Id Tx H)
    (database : Database hashing R) : Bool :=
  match database.forkDb.fetchBranchFrom hashing (hashing.id newHead.block)
      database.core.headBlockId with
  | some (first, front :: second) =>
    match leaveBranch newHead first front second database with
    | .ok _ popped => branchUnsquashed processing first.reverse popped
    | .error _ _ => true
  | _ => true

/-- A switch to a branch one block higher keeps the node anchored and what is committed.

Proof: the pops take the head of the fork database from the new block down to the first
block of the new branch, one for each block of the old branch. There it is on the new
chain while all blocks of the branch are applied. -/
theorem switchForks_anchored {newHead : ForkItem Id Tx H}
    (anchored : Anchored processing genesis chain chain committed database)
    (idle : database.pendingSession = false) (top : database.forkDb.head = some newHead)
    (height : hashing.num newHead.block = chain.length + 1)
    (allCached : ∀ item ∈ database.forkDb.alive, database.forkDb.Cached item.block)
    (quiet : switchUnsquashed processing newHead database = true)
    (done : switchForks processing newHead database = .ok () reached) :
    ∃ whole raised, Anchored processing genesis whole whole raised reached ∧
      whole.length = chain.length + 1 ∧ committed ≤ raised ∧ AgreeBelow committed chain whole ∧
      reached.forkDb.head ≠ none ∧ reached.forkDb.index ⊆ database.forkDb.index ∧
      reached.pendingSession = false := by
  unfold switchForks at done
  unfold switchUnsquashed at quiet
  split at done
  · rename_i first front second branches
    rw [branches] at quiet
    cases popping : leaveBranch newHead first front second database with
    | error thrown stuck =>
      rw [popping] at done
      cases done
    | ok _ popped =>
      simp only [popping] at done quiet
      cases pushing : pushBranch processing first.reverse popped with
      | error thrown stuck =>
        simp only [pushing] at done
        split at done
        · cases done
        · split at done <;> cases done
      | ok _ switched =>
        rw [pushing] at done
        cases done
        obtain ⟨firstAlive, secondAlive⟩ := ForkDatabase.fetchBranchFrom_alive branches
        obtain ⟨count, last, lower, within, below, lastHead, index, idlePopped, resume⟩ :=
          leaveBranch_anchored anchored idle top
            (List.append_subset.mpr ⟨firstAlive, secondAlive⟩) allCached popping
        have low : popped.core.lastIrreversibleBlockNum ≤ committed :=
          Nat.le_trans (stateAfter_irreversible anchored.tracked.lineage.replayed
            lower.lineage.replayed) anchored.irreversible
        obtain ⟨final, _, _⟩ := pushBranch_tracked lower low quiet pushing
        have linked := final.reached.linked
        obtain ⟨⟨newTop, rest, rfl, sameId⟩, _⟩ := ForkDatabase.fetchBranchFrom_heads branches
        have same : newTop.block = newHead.block := hashing.injective sameId
        have newOn : newHead.block ∈
            ((newTop :: rest).reverse.map ForkItem.block).reverse ++ chain.drop count := by
          rw [← same]
          simp
        have depth := lower.depth
        have dropped : (chain.drop count).length = chain.length - count := List.length_drop
        have lastHeight := below.num
        have length : (((newTop :: rest).reverse.map ForkItem.block).reverse ++
            chain.drop count).length = chain.length + 1 := by
          have tipNum := num_tip linked
          rw [← final.reached.head] at tipNum
          rw [List.reverse_cons] at pushing
          have headed := pushBranch_head pushing
          rw [core] at headed
          rw [headed, hashing.numFromId_id, same] at tipNum
          rw [← tipNum]
          exact height
        have start := resume _ linked (fun block member => by
          simp only [List.map_reverse, List.reverse_reverse, List.mem_map] at member
          obtain ⟨item, inFirst, rfl⟩ := member
          exact allCached item (firstAlive inFirst))
        obtain ⟨raised, finish, higher, headFinal, fewer, idleFinal⟩ :=
          pushBranch_anchored start lastHead (below.mem linked newOn) (by omega) quiet pushing
        refine ⟨_, raised, finish, length, higher, agreeBelow_drop _ (by omega), ?_,
          fun item member => index ▸ fewer member, idleFinal.trans idlePopped⟩
        rw [headFinal]
        simp
  · cases done

/-- An anchored node between two calls: the fork database holds nothing higher than the
chain. -/
structure Resting (processing : Processing Id Tx H R) (genesis : R) (chain : List (Block Id Tx H))
    (committed : Nat) (database : Database hashing R) : Prop where
  anchored : Anchored processing genesis chain chain committed database
  level : ∀ item ∈ database.forkDb.index, hashing.num item.block ≤ chain.length
  headless : database.forkDb.head = none → database.forkDb.index = []
  idle : database.pendingSession = false

/-- A push that the fork database refuses or that returns, and whose blocks complete no
session after the commit of their own. -/
def smooth (processing : Processing Id Tx H R) (block : Block Id Tx H)
    (database : Database hashing R) : Bool :=
  match database.forkDb.pushBlock hashing block with
  | .error _ => true
  | .ok forkDb =>
    (thrownBy (pushUnprotected processing block database)).isNone &&
      match forkDb.head with
      | none => true
      | some newHead =>
        let pushed := { database with forkDb := forkDb.pin [newHead] }
        if newHead.block.previous ≠ database.core.headBlockId then
          if hashing.num newHead.block > database.core.headBlockNumber then
            switchUnsquashed processing newHead pushed
          else true
        else unsquashed processing block pushed

theorem Resting.headLevel (resting : Resting processing genesis chain committed database)
    (top : database.forkDb.head = some head) : hashing.num head.block ≤ chain.length := by
  obtain ⟨item, indexed, same⟩ := resting.anchored.headCached head top
  rw [← same]
  exact resting.level item indexed

/-- The node with the pushed block in the fork database: still anchored, with every live
item cached, and with a head that is the new block if it is higher than the chain. -/
structure Inserted (processing : Processing Id Tx H R) (genesis : R) (chain : List (Block Id Tx H))
    (committed : Nat) (block : Block Id Tx H) (newHead : ForkItem Id Tx H)
    (before pushed : Database hashing R) : Prop where
  anchored : Anchored processing genesis chain chain committed pushed
  top : pushed.forkDb.head = some newHead
  allCached : ∀ item ∈ pushed.forkDb.alive, pushed.forkDb.Cached item.block
  new : pushed.forkDb.Cached block
  index : ∀ item ∈ pushed.forkDb.index, item ∈ before.forkDb.index ∨ item.block = block
  lower : hashing.num block ≤ hashing.num newHead.block
  higher : chain.length < hashing.num newHead.block → newHead.block = block
  below : before.forkDb.head = none ∨ hashing.num block ≤ chain.length + 1

theorem Resting.inserted (resting : Resting processing genesis chain committed database)
    {forkDb : ForkDatabase Id Tx H} {newHead : ForkItem Id Tx H}
    (accepts : database.forkDb.pushBlock hashing block = .ok forkDb)
    (top : forkDb.head = some newHead) :
    Inserted processing genesis chain committed block newHead database
      { database with forkDb := forkDb.pin [newHead] } := by
  have wired := resting.anchored.wired.pushBlock accepts
  obtain ⟨pointer, rfl, leads⟩ := ForkDatabase.pushBlock_inserts accepts
  have grows : database.forkDb.index ⊆ (database.forkDb.insertItem hashing
      ⟨database.forkDb.nextSerial, block, pointer⟩).index := ForkDatabase.insertItem_index _
  have newCached : (database.forkDb.insertItem hashing
      ⟨database.forkDb.nextSerial, block, pointer⟩).Cached block :=
    ForkDatabase.insertItem_cached_new _
  have keeps : ∀ other, database.forkDb.Cached other → (database.forkDb.insertItem hashing
      ⟨database.forkDb.nextSerial, block, pointer⟩).Cached other :=
    fun other ⟨item, indexed, same⟩ => ⟨item, grows indexed, same⟩
  have heads := ForkDatabase.insertItem_head top
  have headCached : (database.forkDb.insertItem hashing
      ⟨database.forkDb.nextSerial, block, pointer⟩).Cached newHead.block := by
    rcases heads with ⟨old, _⟩ | ⟨rfl, _⟩
    · exact keeps _ (resting.anchored.headCached newHead old)
    · exact newCached
  refine ⟨⟨resting.anchored.tracked, resting.anchored.lower, resting.anchored.linked,
    resting.anchored.irreversible, resting.anchored.logged, resting.anchored.faithful, ?_, ?_, ?_⟩,
    top, ?_, newCached, ?_, ?_, ?_, ?_⟩
  · refine wired.pin (fun item member => ?_)
    rw [List.mem_singleton] at member
    exact ForkDatabase.mem_alive.mpr (.inr (.inl (member ▸ top)))
  · exact fun other member above => keeps other (resting.anchored.cached other member above)
  · intro other same
    have equal : newHead = other := Option.some.inj (top.symm.trans same)
    exact equal ▸ headCached
  · intro item member
    rcases ForkDatabase.mem_alive.mp member with indexed | same | pinned
    · exact ⟨item, indexed, rfl⟩
    · have equal : newHead = item := Option.some.inj (top.symm.trans same)
      exact equal ▸ headCached
    · exact List.mem_singleton.mp pinned ▸ headCached
  · intro item indexed
    simp only [ForkDatabase.pin, ForkDatabase.insertItem] at indexed
    split at indexed
    · exact .inl indexed
    · rcases List.mem_append.mp indexed with old | new
      · exact .inl old
      · exact .inr (by rw [List.mem_singleton.mp new])
  · rcases heads with ⟨_, lower⟩ | ⟨rfl, _⟩
    · exact lower
    · exact Nat.le_refl _
  · intro above
    rcases heads with ⟨old, _⟩ | ⟨rfl, _⟩
    · exact absurd (resting.headLevel old) (by omega)
    · rfl
  · rcases leads with ⟨_, headless | first⟩ | ⟨below, found, _⟩
    · exact .inl headless
    · rw [Hashing.num, first, hashing.numFromId_null]
      exact .inr (by omega)
    · obtain ⟨id, indexed⟩ := ForkDatabase.fetchBlock_id found
      rw [num_of_previous id]
      have bound := resting.level below indexed
      exact .inr (by omega)

/-- A smooth push leaves the node at rest on a chain that agrees with the old one as far
as it was committed. -/
theorem pushUnprotected_resting
    (resting : Resting processing genesis chain committed database)
    (smoothly : smooth processing block database = true) :
    ∃ next raised, Resting processing genesis next raised
        (left (pushUnprotected processing block database)) ∧
      committed ≤ raised ∧ AgreeBelow committed chain next := by
  unfold smooth at smoothly
  cases accepts : database.forkDb.pushBlock hashing block with
  | error thrown =>
    refine ⟨chain, committed, ?_, Nat.le_refl _, fun _ _ => rfl⟩
    simp only [pushUnprotected, accepts, left]
    exact resting
  | ok forkDb =>
    obtain ⟨newHead, top⟩ := ForkDatabase.pushBlock_head accepts
    simp only [accepts, top, Bool.and_eq_true] at smoothly
    obtain ⟨returns, quiet⟩ := smoothly
    have inserted := resting.inserted accepts top
    have reachedCore := resting.anchored.tracked.reached
    have number : database.core.headBlockNumber = chain.length := reachedCore.number
    have headId : database.core.headBlockId = tip hashing chain := reachedCore.head
    have headNum : hashing.numFromId database.core.headBlockId = chain.length := by
      rw [headId, num_tip reachedCore.linked]
    simp only [pushUnprotected, accepts, top] at returns ⊢
    split
    · rename_i apart
      rw [if_pos apart] at quiet returns
      split
      · rename_i above
        rw [if_pos above] at quiet returns
        rw [number] at above
        cases switching : switchForks processing newHead
            { database with forkDb := forkDb.pin [newHead] } with
        | error thrown stuck =>
          rw [switching] at returns
          cases returns
        | ok _ switched =>
          have same := inserted.higher above
          have height : hashing.num newHead.block = chain.length + 1 := by
            rcases inserted.below with none | bound
            · -- the old head is not in a fork database that was empty
              unfold switchForks at switching
              split at switching
              · rename_i first front second branches
                obtain ⟨_, secondTop, _, _, _, _, _, _, _, found, _⟩ :=
                  ForkDatabase.fetchBranchFrom_parts branches
                obtain ⟨id, indexed⟩ := ForkDatabase.fetchBlock_id found
                rcases inserted.index secondTop indexed with old | new
                · rw [resting.headless none] at old
                  cases old
                · have clash := hashing.numFromId_id secondTop.block
                  rw [id] at clash
                  rw [same, ← new, Hashing.num] at above
                  have equal := clash.symm.trans headNum
                  omega
              · cases switching
            · rw [same] at above ⊢
              omega
          obtain ⟨whole, raised, anchored, length, higher, agree, headed, fewer, idle⟩ :=
            switchForks_anchored inserted.anchored resting.idle inserted.top height
              inserted.allCached quiet switching
          refine ⟨whole, raised, ⟨anchored, fun item indexed => ?_, fun none => absurd none headed,
            idle⟩, higher, agree⟩
          rcases inserted.index item (fewer indexed) with old | new
          · have bound := resting.level item old
            omega
          · rw [new, ← same]
            omega
      · rename_i lower
        rw [number] at lower
        refine ⟨chain, committed, ⟨inserted.anchored, fun item indexed => ?_, fun none => ?_,
          resting.idle⟩, Nat.le_refl _, fun _ _ => rfl⟩
        · rcases inserted.index item indexed with old | new
          · exact resting.level item old
          · have bound := inserted.lower
            rw [new]
            omega
        · exact absurd (top.symm.trans none) (by simp)
    · rename_i extending
      rw [if_neg extending] at quiet returns
      have named : newHead.block.previous = database.core.headBlockId := not_not.mp extending
      have height : hashing.num newHead.block = chain.length + 1 := by
        rw [Hashing.num, named, headNum]
      have same := inserted.higher (by omega)
      have frame := tryBlock_frame processing block
        { database with forkDb := forkDb.pin [newHead] }
      cases tried : tryBlock processing block { database with forkDb := forkDb.pin [newHead] } with
      | error thrown stuck =>
        rw [tried] at returns
        cases returns
      | ok _ reached =>
        rw [tried] at frame
        have linked : IsChain hashing (block :: chain) :=
          ⟨by rw [← same, named, headId], reachedCore.linked⟩
        have extended : Anchored processing genesis ([] ++ block :: chain) chain committed
            { database with forkDb := forkDb.pin [newHead] } :=
          { inserted.anchored with
            lower := ⟨[block], rfl⟩
            linked := linked
            cached := fun other member above => by
              rcases List.mem_cons.mp member with rfl | old
              · exact inserted.new
              · exact inserted.anchored.cached other old above }
        obtain ⟨anchored, headed, fewer⟩ :=
          tryBlock_anchored extended inserted.top (by simp [same]) (by omega) quiet tried
        refine ⟨block :: chain, _, ⟨anchored, fun item indexed => ?_, fun none => ?_,
          frame.1.trans resting.idle⟩, Nat.le_max_left _ _, fun at_ low => ?_⟩
        · rw [List.length_cons]
          rcases inserted.index item (fewer indexed) with old | new
          · have bound := resting.level item old
            omega
          · rw [new, ← same, height]
        · rw [left] at none
          rw [headed] at none
          cases none
        · have depth := resting.anchored.tracked.depth
          exact blockAt_cons_below (by omega)

end Database

end DeipChain.Chain
