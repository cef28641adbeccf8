import DeipChain.Chain.CommonAncestors
import DeipChain.Chain.Irreversible

/-!
# What a node looks up for its peers

The network code asks the database whether it knows a block, which id stands at a height, and
how a block of a fork comes down to the applied chain. A node at rest knows every block of its
chain and no id above it, so that each question is one about the chain.
-/
namespace DeipChain.Chain

variable {Id Tx H R : Type} {hashing : Hashing Id Tx H}

/-- The exceptions of the lookups and of the network code that uses them. -/
inductive SyncError where
  | unknownHeight
  | branchMissing
  | unreachableFork
  | olderThanUndoHistory
  deriving DecidableEq

/-- The ids of a chain, oldest first. -/
def ids (hashing : Hashing Id Tx H) (chain : List (Block Id Tx H)) : List Id :=
  (chain.map hashing.id).reverse

/-- The id at a height, counted from 1. -/
def idAt (hashing : Hashing Id Tx H) (spine : List Id) (height : Nat) : Id :=
  spine[height - 1]?.getD hashing.null

section Spines

variable {chain above below : List (Block Id Tx H)} {block : Block Id Tx H} {height : Nat}

@[simp] theorem ids_length : (ids hashing chain).length = chain.length := by
  simp [ids]

theorem ids_append : ids hashing (above ++ below) = ids hashing below ++ ids hashing above := by
  simp [ids]

theorem mem_ids {id : Id} : id ∈ ids hashing chain ↔ ∃ block ∈ chain, hashing.id block = id := by
  simp [ids]

theorem ids_getElem? (positive : 0 < height) :
    (ids hashing chain)[height - 1]? = (blockAt chain height).map hashing.id := by
  rw [blockAt, if_neg (by omega), ids, ← List.map_reverse, List.getElem?_map]

theorem idAt_of_blockAt (found : blockAt chain height = some block) :
    idAt hashing (ids hashing chain) height = hashing.id block := by
  rw [idAt, ids_getElem? (blockAt_height found).1, found, Option.map_some, Option.getD_some]

/-- The null id is not the id of a block. -/
theorem id_ne_null (block : Block Id Tx H) : hashing.id block ≠ hashing.null := by
  intro same
  have number := hashing.numFromId_id block
  rw [same, hashing.numFromId_null] at number
  cases number

/-- An id of a chain stands at its number. -/
theorem idAt_num (linked : IsChain hashing chain) {id : Id} (member : id ∈ ids hashing chain) :
    0 < hashing.numFromId id ∧ hashing.numFromId id ≤ chain.length ∧
      idAt hashing (ids hashing chain) (hashing.numFromId id) = id := by
  obtain ⟨block, onChain, rfl⟩ := mem_ids.mp member
  have found := blockAt_num linked onChain
  have bounds := blockAt_height found
  rw [hashing.numFromId_id]
  exact ⟨bounds.1, bounds.2, idAt_of_blockAt found⟩

theorem num_idAt (linked : IsChain hashing chain) (positive : 0 < height)
    (within : height ≤ chain.length) :
    hashing.numFromId (idAt hashing (ids hashing chain) height) = height ∧
      idAt hashing (ids hashing chain) height ∈ ids hashing chain := by
  obtain ⟨block, found⟩ := blockAt_of_le positive within
  rw [idAt_of_blockAt found, hashing.numFromId_id]
  exact ⟨num_of_blockAt linked found, mem_ids.mpr ⟨block, mem_of_blockAt found, rfl⟩⟩

end Spines

namespace Database

variable [DecidableEq Id]

/-- `is_known_block` -/
def isKnownBlock (id : Id) (database : Database hashing R) : Bool :=
  (database.fetchBlockById id).isSome

/-- `get_block_id_for_num` -/
def getBlockIdForNum (num : Nat) (database : Database hashing R) : Except SyncError Id :=
  if database.findBlockIdForNum num = hashing.null then .error .unknownHeight
  else .ok (database.findBlockIdForNum num)

/-- `fetch_block_by_number`: of several cached blocks of the number none is taken. -/
def fetchBlockByNumber (num : Nat) (database : Database hashing R) : Option (Block Id Tx H) :=
  match database.forkDb.fetchBlockByNumber hashing num with
  | [item] => some item.block
  | _ => database.blockLog.readBlockByNum num

/-- `get_block_ids_on_fork`: the ids of the fork, newest first, and the one it starts from. -/
def getBlockIdsOnFork (headOfFork : Id) (database : Database hashing R) :
    Except SyncError (List Id) :=
  match database.forkDb.fetchBranchFrom hashing database.core.headBlockId headOfFork with
  | some (first, second) =>
    match first.getLast? with
    | some last => .ok (second.map (fun item => hashing.id item.block) ++ [last.block.previous])
    | none => .error .branchMissing
  | none => .error .branchMissing

/-- `is_included_block` -/
def isIncludedBlock (id : Id) (database : Database hashing R) : Except SyncError Bool :=
  (database.getBlockIdForNum (hashing.numFromId id)).map (fun preferred => id = preferred)

end Database

/-! ## No id above the chain -/

section Summaries

variable [DecidableEq Id] {processing : Processing Id Tx H R} {genesis : R}
  {chain : List (Block Id Tx H)} {state : ChainState Id R}

/-- The buffer of recent ids holds none of a number above the chain. -/
theorem stateAfter_summary (replayed : stateAfter hashing processing genesis chain = some state)
    {slot : Nat} {id : Id} (entry : state.core.blockSummary[slot]? = some id) :
    hashing.numFromId id ≤ chain.length := by
  induction chain generalizing state with
  | nil =>
    simp only [stateAfter, Option.some.injEq] at replayed
    subst replayed
    simp [Core.genesis] at entry
  | cons block rest inductionHypothesis =>
    obtain ⟨before, replayedBefore, done⟩ := stateAfter_cons.mp replayed
    have linked := (stateAfter_reached replayed).linked
    obtain ⟨middle, prepares, _, written⟩ := applied_ok done
    obtain ⟨_, _, _, _, _, raised⟩ := prepared_ok prepares
    rw [written, OrderedMap.lookup_insert, raised] at entry
    split at entry
    · rw [← Option.some.inj entry, hashing.numFromId_id]
      exact Nat.le_of_eq (num_of_chain linked)
    · exact Nat.le_succ_of_le (inductionHypothesis replayedBefore entry)

end Summaries

/-! ## The branches of the fork database -/

namespace ForkDatabase

variable {forkDb : ForkDatabase Id Tx H} {item last : ForkItem Id Tx H}
  {items : List (ForkItem Id Tx H)} {chain base : List (Block Id Tx H)}

/-- The items of a branch are a chain on top of the chain that the last one builds on. -/
theorem Branch.isChain (branch : forkDb.Branch item items last) (wired : forkDb.Wired hashing)
    (held : item ∈ forkDb.alive) (linked : IsChain hashing base)
    (ends : last.block.previous = tip hashing base) :
    IsChain hashing (items.map ForkItem.block ++ base) := by
  induction branch with
  | single item => exact ⟨ends, linked⟩
  | step locked rest hypothesis =>
    refine ⟨?_, hypothesis (lock_some locked).1 ends⟩
    rw [← wired.lock_previous held locked]
    cases rest <;> rfl

/-- A branch that starts on a chain stays on it. -/
theorem Branch.onChain (branch : forkDb.Branch item items last) (wired : forkDb.Wired hashing)
    (held : item ∈ forkDb.alive) (linked : IsChain hashing chain) (onChain : item.block ∈ chain) :
    last.block ∈ chain := by
  induction branch with
  | single item => exact onChain
  | step locked rest hypothesis =>
    exact hypothesis (lock_some locked).1
      (mem_previous linked onChain (wired.lock_previous held locked))

variable [DecidableEq Id] {first second : Id} {firstBranch secondBranch : List (ForkItem Id Tx H)}

/-- What is found are two branches down to one previous block. -/
theorem Wired.fetchBranchFrom (wired : forkDb.Wired hashing)
    (found : forkDb.fetchBranchFrom hashing first second = some (firstBranch, secondBranch)) :
    ∃ firstTop secondTop firstLast secondLast,
      forkDb.fetchBlock hashing first = some firstTop ∧
      forkDb.fetchBlock hashing second = some secondTop ∧
      forkDb.Branch firstTop firstBranch firstLast ∧
      forkDb.Branch secondTop secondBranch secondLast ∧
      firstLast.block.previous = secondLast.block.previous := by
  obtain ⟨firstTop, secondTop, firstUpper, firstItem, secondUpper, secondItem, firstLower,
    secondLower, foundFirst, foundSecond, descends, descendsTwo, meets, rfl, rfl⟩ :=
    fetchBranchFrom_parts found
  have held : firstTop ∈ forkDb.alive := mem_alive.mpr (.inl (fetchBlock_id foundFirst).2)
  have heldTwo : secondTop ∈ forkDb.alive := mem_alive.mpr (.inl (fetchBlock_id foundSecond).2)
  obtain ⟨goes, height⟩ := descend_branch wired held descends
  obtain ⟨goesTwo, heightTwo⟩ := descend_branch wired heldTwo descendsTwo
  have alive := (descend_alive held descends).2
  have aliveTwo := (descend_alive heldTwo descendsTwo).2
  obtain ⟨firstLast, secondLast, branch, branchTwo, common, _⟩ :=
    meet_branches wired alive aliveTwo (by omega) meets
  exact ⟨firstTop, secondTop, firstLast, secondLast, foundFirst, foundSecond, goes _ _ branch,
    goesTwo _ _ branchTwo, common⟩

end ForkDatabase

theorem split_of_mem {chain : List (Block Id Tx H)} {block : Block Id Tx H}
    (linked : IsChain hashing chain) (member : block ∈ chain) :
    ∃ above base, chain = above ++ block :: base ∧ block.previous = tip hashing base ∧
      IsChain hashing base := by
  obtain ⟨above, base, rfl⟩ := List.append_of_mem member
  have lower := linked.drop above.length
  rw [List.drop_left] at lower
  exact ⟨above, base, rfl, lower.1, lower.2⟩

/-! ## A node at rest -/

namespace Database

variable [DecidableEq Id] {processing : Processing Id Tx H R} {genesis : R}
  {chain : List (Block Id Tx H)} {committed num : Nat} {database : Database hashing R}

theorem fetchBlockById_some {id : Id} {block : Block Id Tx H}
    (found : database.fetchBlockById id = some block) :
    hashing.id block = id ∧ (database.forkDb.Cached block ∨ block ∈ database.blockLog.blocks) := by
  unfold fetchBlockById at found
  split at found
  · rename_i item fetched
    obtain ⟨same, indexed⟩ := ForkDatabase.fetchBlock_id fetched
    cases found
    exact ⟨same, .inl ⟨item, indexed, rfl⟩⟩
  · split at found
    · rename_i other read
      split at found
      · rename_i same
        cases found
        unfold BlockLog.readBlockByNum at read
        split at read
        · cases read
        · exact ⟨same, .inr (List.mem_of_getElem? read)⟩
      · cases found
    · cases found

namespace Quiescent

variable (quiescent : Quiescent processing genesis chain committed database)
include quiescent

theorem reached : Reached hashing chain database.core := by
  rw [quiescent.core]
  exact quiescent.resting.anchored.tracked.reached

theorem number : database.core.headBlockNumber = chain.length := quiescent.reached.number

theorem linked : IsChain hashing chain := quiescent.reached.linked

theorem wired : database.forkDb.Wired hashing :=
  (clearPending_frame database).2 ▸ quiescent.resting.anchored.wired

theorem level {item : ForkItem Id Tx H} (indexed : item ∈ database.forkDb.index) :
    hashing.num item.block ≤ chain.length :=
  quiescent.resting.level item ((clearPending_frame database).2 ▸ indexed)

theorem cached {block : Block Id Tx H} (member : block ∈ chain)
    (above : committed < hashing.num block) : database.forkDb.Cached block :=
  (clearPending_frame database).2 ▸ quiescent.resting.anchored.cached block member above

theorem faithful {block : Block Id Tx H} (logged : block ∈ database.blockLog.blocks) :
    block ∈ chain :=
  quiescent.resting.anchored.faithful block ((clearPending_frame database).1 ▸ logged)

theorem logged : database.blockLog.blocks.length = committed :=
  (clearPending_frame database).1 ▸ quiescent.resting.anchored.logged

theorem irreversible_le : database.core.lastIrreversibleBlockNum ≤ committed := by
  rw [quiescent.core]
  exact quiescent.resting.anchored.irreversible

theorem findBlockIdForNum (positive : 0 < num) (within : num ≤ chain.length) :
    database.findBlockIdForNum num = idAt hashing (ids hashing chain) num := by
  obtain ⟨block, found, same⟩ := quiescent.logHolds.ids num positive (by rwa [quiescent.number])
  rw [same, idAt_of_blockAt found]

/-- Nothing is found above the chain. -/
theorem findBlockIdForNum_above (above : chain.length < num) :
    database.findBlockIdForNum num = hashing.null := by
  unfold Database.findBlockIdForNum
  rw [if_neg (by omega)]
  have summary : ¬ hashing.numFromId
      (database.core.blockSummary[num % summarySize]?.getD hashing.null) = num := by
    cases entry : database.core.blockSummary[num % summarySize]? with
    | none =>
      rw [Option.getD_none, hashing.numFromId_null]
      omega
    | some id =>
      rw [quiescent.core] at entry
      have bound := stateAfter_summary quiescent.resting.anchored.tracked.lineage.replayed entry
      rw [Option.getD_some]
      omega
  have unlogged : database.blockLog.readBlockByNum num = none := by
    rw [BlockLog.readBlockByNum, if_neg (by omega)]
    cases read : database.blockLog.blocks[num - 1]? with
    | none => rfl
    | some block =>
      have numbered := database.blockLog.numbered _ _ read
      have bound := num_le_length quiescent.linked (quiescent.faithful (List.mem_of_getElem? read))
      omega
  have uncached : database.forkDb.fetchBlockByNumber hashing num = [] := by
    rw [ForkDatabase.fetchBlockByNumber, List.filter_eq_nil_iff]
    intro item indexed
    have bound := quiescent.level indexed
    simp only [decide_eq_true_eq]
    omega
  simp only [if_neg summary, unlogged, ForkDatabase.fetchBlockOnMainBranchByNumber, uncached]

/-- An id is found for the heights of the chain. -/
theorem getBlockIdForNum (positive : 0 < num) (within : num ≤ chain.length) :
    database.getBlockIdForNum num = .ok (idAt hashing (ids hashing chain) num) := by
  obtain ⟨block, found⟩ := blockAt_of_le positive within
  rw [Database.getBlockIdForNum, quiescent.findBlockIdForNum positive within,
    idAt_of_blockAt found, if_neg (id_ne_null block)]

theorem getBlockIdForNum_outside (outside : num = 0 ∨ chain.length < num) :
    database.getBlockIdForNum num = .error .unknownHeight := by
  have none : database.findBlockIdForNum num = hashing.null := by
    rcases outside with rfl | above
    · rfl
    · exact quiescent.findBlockIdForNum_above above
  rw [Database.getBlockIdForNum, if_pos none]

/-- An id of a possible height is on the chain or not, for every other one there is an
exception. -/
theorem isIncludedBlock (id : Id) :
    database.isIncludedBlock id =
      if 0 < hashing.numFromId id ∧ hashing.numFromId id ≤ chain.length then
        .ok (decide (id ∈ ids hashing chain))
      else .error .unknownHeight := by
  rw [Database.isIncludedBlock]
  split
  · rename_i bounds
    rw [quiescent.getBlockIdForNum bounds.1 bounds.2, Except.map]
    congr 1
    rw [decide_eq_decide]
    constructor
    · intro same
      rw [same]
      exact (num_idAt quiescent.linked bounds.1 bounds.2).2
    · intro member
      exact (idAt_num quiescent.linked member).2.2.symm
  · rename_i outside
    rw [quiescent.getBlockIdForNum_outside (by omega), Except.map]

/-- The blocks of the chain can be fetched. -/
theorem fetchBlockById {block : Block Id Tx H} (member : block ∈ chain) :
    database.fetchBlockById (hashing.id block) = some block := by
  unfold Database.fetchBlockById
  cases fetched : database.forkDb.fetchBlock hashing (hashing.id block) with
  | some item =>
    exact congrArg some (hashing.injective (ForkDatabase.fetchBlock_id fetched).1)
  | none =>
    have low : hashing.num block ≤ committed := by
      by_contra above
      obtain ⟨item, indexed, rfl⟩ := quiescent.cached member (by omega)
      have absent := List.find?_eq_none.mp fetched item indexed
      simp at absent
    have positive := (num_le_length quiescent.linked member).1
    have inLog : hashing.num block - 1 < database.blockLog.blocks.length := by
      rw [quiescent.logged]
      omega
    have read := List.getElem?_eq_getElem inLog
    have same := blockAt_of_faithful quiescent.linked (fun _ logged => quiescent.faithful logged) read
    rw [Nat.sub_add_cancel positive, blockAt_num quiescent.linked member] at same
    have number : hashing.numFromId (hashing.id block) = hashing.num block :=
      hashing.numFromId_id block
    rw [number, BlockLog.readBlockByNum, if_neg (by omega), read, ← Option.some.inj same]
    simp

theorem isKnownBlock {id : Id} (member : id ∈ ids hashing chain) :
    database.isKnownBlock id = true := by
  obtain ⟨block, onChain, rfl⟩ := mem_ids.mp member
  rw [Database.isKnownBlock, quiescent.fetchBlockById onChain, Option.isSome_some]

/-- No block above the chain is known. -/
theorem known_bounds {id : Id} (known : database.isKnownBlock id = true) :
    0 < hashing.numFromId id ∧ hashing.numFromId id ≤ chain.length := by
  obtain ⟨block, found⟩ := Option.isSome_iff_exists.mp known
  obtain ⟨rfl, stored⟩ := fetchBlockById_some found
  have number : hashing.numFromId (hashing.id block) = hashing.num block := hashing.numFromId_id block
  rw [number]
  rcases stored with ⟨item, indexed, rfl⟩ | logged
  · exact ⟨Nat.succ_pos _, quiescent.level indexed⟩
  · exact num_le_length quiescent.linked (quiescent.faithful logged)

/-- The ids of a fork are those of a chain on a lower part of the applied one. -/
theorem getBlockIdsOnFork {head : Id} {history : List Id}
    (done : database.getBlockIdsOnFork head = .ok history) :
    ∃ upper above base, chain = above ++ base ∧ IsChain hashing (upper ++ base) ∧ upper ≠ [] ∧
      tip hashing (upper ++ base) = head ∧
      (∀ block ∈ upper, ∃ item ∈ database.forkDb.alive, item.block = block) ∧
      history = upper.map hashing.id ++ [tip hashing base] := by
  unfold Database.getBlockIdsOnFork at done
  split at done
  · rename_i first second branches
    obtain ⟨firstTop, secondTop, firstLast, secondLast, foundFirst, foundSecond, branch, branchTwo,
      common⟩ := quiescent.wired.fetchBranchFrom branches
    obtain ⟨idFirst, indexed⟩ := ForkDatabase.fetchBlock_id foundFirst
    obtain ⟨idSecond, indexedTwo⟩ := ForkDatabase.fetchBlock_id foundSecond
    have held := ForkDatabase.mem_alive.mpr (.inl indexed)
    have heldTwo := ForkDatabase.mem_alive.mpr (.inl indexedTwo)
    simp only [branch.last_eq, Except.ok.injEq] at done
    rw [quiescent.reached.head] at idFirst
    have onChain : firstTop.block ∈ chain := by
      cases chain with
      | nil => exact absurd idFirst (id_ne_null _)
      | cons block rest => exact hashing.injective idFirst ▸ List.mem_cons_self
    have last := branch.onChain quiescent.wired held quiescent.linked onChain
    obtain ⟨above, base, rfl, named, lower⟩ := split_of_mem quiescent.linked last
    have whole := branchTwo.isChain quiescent.wired heldTwo lower (common.symm.trans named)
    refine ⟨second.map ForkItem.block, above ++ [firstLast.block], base, by simp, whole, ?_, ?_, ?_,
      ?_⟩
    · cases branchTwo <;> simp
    · rw [← idSecond]
      cases branchTwo <;> rfl
    · intro block member
      obtain ⟨item, inBranch, rfl⟩ := List.mem_map.mp member
      exact ⟨item, ForkDatabase.Reaches.alive (branchTwo.between item inBranch).1 heldTwo, rfl⟩
    · rw [← done, named, List.map_map]
      rfl
  · cases done

end Quiescent

/-- A node at rest without local pointers into the fork database. -/
structure Settled (processing : Processing Id Tx H R) (genesis : R)
    (chain : List (Block Id Tx H)) (committed : Nat) (database : Database hashing R) : Prop where
  quiescent : Quiescent processing genesis chain committed database
  unpinned : database.forkDb.pinned = []

theorem settled_genesis (processing : Processing Id Tx H R) (genesis : R) :
    Settled processing genesis [] 0 (Database.genesis hashing genesis) :=
  ⟨quiescent_genesis processing genesis, rfl⟩

theorem afterCall_unpinned (call : Call Id Tx H) (unpinned : database.forkDb.pinned = []) :
    (afterCall processing call database).forkDb.pinned = [] := by
  cases call with
  | pushBlock block =>
    rw [afterCall, left_pushBlock, finishPush_forkDb]
    rfl
  | pushTransaction transaction =>
    rw [afterCall, (pushPending_frame transaction database).2, unpinned]

/-- A smooth run keeps the node settled, on a chain that agrees with the old one as far as that
was committed. -/
theorem afterCalls_settled (calls : List (Call Id Tx H))
    (settled : Settled processing genesis chain committed database)
    (smoothly : smoothRun processing calls database = true) :
    ∃ next raised, Settled processing genesis next raised
        (afterCalls processing calls database) ∧
      committed ≤ raised ∧ AgreeBelow committed chain next := by
  obtain ⟨next, raised, quiescent, higher, agree⟩ :=
    afterCalls_quiescent calls settled.quiescent smoothly
  refine ⟨next, raised, ⟨quiescent, ?_⟩, higher, agree⟩
  have unpinned := settled.unpinned
  clear settled smoothly quiescent
  induction calls generalizing database with
  | nil => exact unpinned
  | cons call rest inductionHypothesis =>
    exact inductionHypothesis (afterCall_unpinned call unpinned)

/-- What a settled node holds of a fork it knows. -/
theorem Settled.known_of_alive (settled : Settled processing genesis chain committed database)
    {item : ForkItem Id Tx H} (alive : item ∈ database.forkDb.alive) :
    database.isKnownBlock (hashing.id item.block) = true := by
  have indexed : database.forkDb.Cached item.block := by
    rcases ForkDatabase.mem_alive.mp alive with indexed | headed | pinned
    · exact ⟨item, indexed, rfl⟩
    · have cached := settled.quiescent.resting.anchored.headCached
      rw [(clearPending_frame database).2] at cached
      exact cached item headed
    · rw [settled.unpinned] at pinned
      cases pinned
  obtain ⟨other, member, same⟩ := indexed
  have fetched : (database.forkDb.fetchBlock hashing (hashing.id item.block)).isSome = true :=
    List.find?_isSome.mpr ⟨other, member, by simp [same]⟩
  obtain ⟨held, found⟩ := Option.isSome_iff_exists.mp fetched
  simp only [isKnownBlock, fetchBlockById, found, Option.isSome_some]

end Database

end DeipChain.Chain
