import DeipChain.Chain.Atomicity
import DeipChain.Chain.Irreversible

/-!
# The head of the fork database

The head of the object store and the head of the fork database are moved by different
code. They stay together as long as blocks are applied one on top of the other: the new
item becomes the head of the fork database and the new block the head of the store. Then
the prev pointers from the head run through the applied chain, down to the oldest of its
blocks that is still in the index. A fork switch leaves the head of the fork database at
the first block of the new branch, and a block that fails to apply leaves it on that
block.
-/
namespace DeipChain.Chain

open Snapshots

variable {Id Tx H R : Type} {hashing : Hashing Id Tx H}

namespace ForkDatabase

/-- The items met by following the prev pointers. -/
def strand (forkDb : ForkDatabase Id Tx H) : Nat → Option (ForkItem Id Tx H) →
    List (ForkItem Id Tx H)
  | 0, _ => []
  | _ + 1, none => []
  | fuel + 1, some item => item :: strand forkDb fuel (forkDb.lock item)

/-- The cached blocks of the chain are those from the height below the last irreversible
block on, each with a pointer to the one below it. -/
structure Strung (hashing : Hashing Id Tx H) (chain : List (Block Id Tx H)) (irreversible : Nat)
    (forkDb : ForkDatabase Id Tx H) : Prop where
  wired : forkDb.Wired hashing
  linked : IsChain hashing chain
  level : ∀ item ∈ forkDb.index, hashing.num item.block ≤ chain.length
  top : ∀ block rest, chain = block :: rest →
    ∃ head ∈ forkDb.index, forkDb.head = some head ∧ head.block = block
  empty : chain = [] → forkDb.head = none ∧ forkDb.index = []
  unique : ∀ item ∈ forkDb.index, ∀ other ∈ forkDb.index, item.block = other.block → item = other
  low : ∀ item ∈ forkDb.index, item.block ∈ chain → irreversible ≤ hashing.num item.block + 1
  high : ∀ block ∈ chain, irreversible ≤ hashing.num block + 1 → forkDb.Cached block
  back : ∀ item ∈ forkDb.index, item.block ∈ chain → ∀ other ∈ forkDb.index,
    hashing.id other.block = item.block.previous → item.prev = some other.serial

variable {forkDb : ForkDatabase Id Tx H} {chain : List (Block Id Tx H)} {irreversible : Nat}

/-- The size that the fork database was given last, with the chain's newest block. -/
def Windowed (chain : List (Block Id Tx H)) (irreversible : Nat)
    (forkDb : ForkDatabase Id Tx H) : Prop :=
  chain ≠ [] → forkDb.maxSize + irreversible = chain.length + 1

theorem strung_empty (hashing : Hashing Id Tx H) :
    Strung hashing [] 0 (ForkDatabase.empty : ForkDatabase Id Tx H) where
  wired := wired_empty
  linked := trivial
  level item member := by cases member
  top block rest same := by cases same
  empty _ := ⟨rfl, rfl⟩
  unique item member := by cases member
  low item member := by cases member
  high block member := by cases member
  back item member := by cases member

theorem strand_none (fuel : Nat) : forkDb.strand fuel none = [] := by
  cases fuel <;> rfl

/-- A live item is in the index, except for those that only a local pointer holds. -/
theorem Strung.alive (strung : Strung hashing chain irreversible forkDb)
    (pinned : forkDb.pinned = []) {item : ForkItem Id Tx H} (member : item ∈ forkDb.alive) :
    item ∈ forkDb.index := by
  rcases mem_alive.mp member with indexed | headed | held
  · exact indexed
  · cases chain with
    | nil =>
      rw [(strung.empty rfl).1] at headed
      cases headed
    | cons block rest =>
      obtain ⟨head, indexed, top, _⟩ := strung.top block rest rfl
      rw [top] at headed
      exact Option.some.inj headed ▸ indexed
  · rw [pinned] at held
    cases held

/-- The pointers from a cached block of the chain run through the chain below it, as far
as that is cached. -/
theorem Strung.strand_from (strung : Strung hashing chain irreversible forkDb)
    (pinned : forkDb.pinned = []) {above rest : List (Block Id Tx H)} {item : ForkItem Id Tx H}
    (split : chain = above ++ item.block :: rest) (indexed : item ∈ forkDb.index) {fuel : Nat}
    (enough : rest.length < fuel) :
    (forkDb.strand fuel (some item)).map ForkItem.block =
        (item.block :: rest).take (forkDb.strand fuel (some item)).length ∧
      ∀ other ∈ forkDb.index, other.block ∈ item.block :: rest →
        other ∈ forkDb.strand fuel (some item) := by
  have itemAlive : item ∈ forkDb.alive := mem_alive.mpr (.inl indexed)
  have onChain : item.block ∈ chain := by simp [split]
  have linked : IsChain hashing (item.block :: rest) := by
    have lower := strung.linked.drop above.length
    rwa [split, List.drop_left] at lower
  obtain ⟨fuel, rfl⟩ : ∃ less, fuel = less + 1 := ⟨fuel - 1, by omega⟩
  induction rest generalizing item above fuel with
  | nil =>
    have ends : forkDb.lock item = none := by
      cases locked : forkDb.lock item with
      | none => rfl
      | some prev =>
        have named := strung.wired.lock_previous itemAlive locked
        have numbers := hashing.numFromId_id prev.block
        rw [named, linked.1, tip, hashing.numFromId_null] at numbers
        omega
    rw [strand, ends, strand_none]
    refine ⟨rfl, fun other member same => ?_⟩
    rw [List.mem_singleton] at same ⊢
    exact strung.unique other member item indexed same
  | cons block rest inductionHypothesis =>
    have named : item.block.previous = hashing.id block := linked.1
    by_cases cached : forkDb.Cached block
    · obtain ⟨prev, prevIndexed, rfl⟩ := cached
      have pointer := strung.back item indexed onChain prev prevIndexed named.symm
      have locked := strung.wired.lock_eq pointer (mem_alive.mpr (.inl prevIndexed))
      have splitNext : chain = (above ++ [item.block]) ++ prev.block :: rest := by
        simp [split]
      simp only [List.length_cons] at enough
      obtain ⟨less, rfl⟩ : ∃ less, fuel = less + 1 := ⟨fuel - 1, by omega⟩
      obtain ⟨blocks, all⟩ := inductionHypothesis splitNext prevIndexed
        (mem_alive.mpr (.inl prevIndexed)) (by simp [splitNext]) linked.2 less (by omega)
      rw [strand, locked]
      refine ⟨?_, fun other member same => ?_⟩
      · rw [List.map_cons, blocks, List.length_cons, List.take_succ_cons]
      · rcases List.mem_cons.mp same with top | lower
        · rw [strung.unique other member item indexed top]
          exact List.mem_cons_self
        · exact List.mem_cons_of_mem _ (all other member lower)
    · have ends : forkDb.lock item = none := by
        cases locked : forkDb.lock item with
        | none => rfl
        | some prev =>
          have same : prev.block = block := hashing.injective
            ((strung.wired.lock_previous itemAlive locked).trans named)
          exact absurd ⟨prev, strung.alive pinned (lock_some locked).1, same⟩ cached
      rw [strand, ends, strand_none]
      refine ⟨rfl, fun other member same => ?_⟩
      rcases List.mem_cons.mp same with top | lower
      · rw [strung.unique other member item indexed top]
        exact List.mem_cons_self
      · -- a cached block below one that is not cached would be too low for the window
        have otherOn : other.block ∈ chain := by
          rw [split]
          exact List.mem_append_right _ (List.mem_cons_of_mem _ lower)
        have blockOn : block ∈ chain := by simp [split]
        have bound := (num_le_length linked.2 lower).2
        have height := num_of_chain linked.2
        have window := strung.low other member otherOn
        rw [List.length_cons] at bound
        exact absurd (strung.high block blockOn (by omega)) cached

theorem Strung.of_pin (strung : Strung hashing chain irreversible forkDb)
    {items : List (ForkItem Id Tx H)} (held : items ⊆ forkDb.alive) :
    Strung hashing chain irreversible (forkDb.pin items) :=
  { strung with wired := strung.wired.pin held }

/-- Trimming to a later window. -/
theorem Strung.setMaxSize {block : Block Id Tx H} {rest : List (Block Id Tx H)} {raised : Nat}
    (strung : Strung hashing (block :: rest) irreversible forkDb) (higher : irreversible ≤ raised)
    (within : raised ≤ rest.length + 1) :
    Strung hashing (block :: rest) raised
        (forkDb.setMaxSize hashing (rest.length + 1 - raised + 1)) ∧
      Windowed (block :: rest) raised
        (forkDb.setMaxSize hashing (rest.length + 1 - raised + 1)) := by
  obtain ⟨head, indexed, top, same⟩ := strung.top block rest rfl
  have height : hashing.num head.block = rest.length + 1 := by
    rw [same, num_of_chain strung.linked]
  have trimmed : (forkDb.setMaxSize hashing (rest.length + 1 - raised + 1)).index =
      forkDb.index.filter (fun item => raised ≤ hashing.num item.block + 1) := by
    simp only [ForkDatabase.setMaxSize, top, height]
    congr 1
    funext item
    rw [decide_eq_decide]
    omega
  have fewer : ∀ item, item ∈ (forkDb.setMaxSize hashing (rest.length + 1 - raised + 1)).index ↔
      item ∈ forkDb.index ∧ raised ≤ hashing.num item.block + 1 := by
    intro item
    rw [trimmed, List.mem_filter, decide_eq_true_eq]
  refine ⟨⟨strung.wired.setMaxSize _, strung.linked, ?_, ?_, ?_, ?_, ?_, ?_, ?_⟩, ?_⟩
  · exact fun item member => strung.level item ((fewer item).mp member).1
  · intro other below split
    cases split
    exact ⟨head, (fewer head).mpr ⟨indexed, by omega⟩, by rw [setMaxSize_head, top], same⟩
  · intro none
    cases none
  · exact fun item member other memberOther => strung.unique item ((fewer item).mp member).1
      other ((fewer other).mp memberOther).1
  · exact fun item member _ => ((fewer item).mp member).2
  · intro other member low
    obtain ⟨item, itemIndexed, named⟩ := strung.high other member (by omega)
    exact ⟨item, (fewer item).mpr ⟨itemIndexed, by rw [named]; exact low⟩, named⟩
  · exact fun item member onChain other memberOther => strung.back item ((fewer item).mp member).1
      onChain other ((fewer other).mp memberOther).1
  · intro _
    simp only [ForkDatabase.setMaxSize, top, List.length_cons]
    omega

variable [DecidableEq Id] {block : Block Id Tx H} {pushed : ForkDatabase Id Tx H}
  {newHead : ForkItem Id Tx H}

/-- A block that is accepted lies above the window of the fork database. -/
theorem pushBlock_recent {head : ForkItem Id Tx H} (top : forkDb.head = some head)
    (accepts : forkDb.pushBlock hashing block = .ok pushed) :
    hashing.num head.block - forkDb.maxSize < hashing.num block := by
  unfold pushBlock at accepts
  simp only [top] at accepts
  split at accepts
  · cases accepts
  · rename_i recent
    exact Nat.lt_of_not_le recent

theorem insertItem_mem {item other : ForkItem Id Tx H} :
    other ∈ (forkDb.insertItem hashing item).index ↔
      other ∈ forkDb.index ∨ (other = item ∧ ¬ forkDb.Cached item.block) := by
  have cached : (forkDb.fetchBlock hashing (hashing.id item.block)).isSome = true ↔
      forkDb.Cached item.block := by
    rw [Option.isSome_iff_exists]
    constructor
    · rintro ⟨found, fetched⟩
      obtain ⟨id, indexed⟩ := fetchBlock_id fetched
      exact ⟨found, indexed, hashing.injective id⟩
    · rintro ⟨found, indexed, same⟩
      rw [← Option.isSome_iff_exists, fetchBlock, List.find?_isSome]
      exact ⟨found, indexed, by simp [same]⟩
  simp only [insertItem]
  split
  · rename_i present
    simp [cached.mp present]
  · rename_i absent
    rw [cached] at absent
    simp [absent]

/-- A block that does not become the head leaves the strand alone. -/
theorem Strung.ignored (strung : Strung hashing chain irreversible forkDb)
    (windowed : Windowed chain irreversible forkDb)
    (accepts : forkDb.pushBlock hashing block = .ok pushed) (top : pushed.head = some newHead)
    (lower : hashing.num newHead.block ≤ chain.length) :
    Strung hashing chain irreversible pushed ∧ Windowed chain irreversible pushed := by
  have wired := strung.wired.pushBlock accepts
  obtain ⟨first, rest, rfl⟩ : ∃ first rest, chain = first :: rest := by
    cases chain with
    | nil =>
      rw [List.length_nil, Hashing.num] at lower
      omega
    | cons first rest => exact ⟨first, rest, rfl⟩
  obtain ⟨head, indexed, before, same⟩ := strung.top first rest rfl
  have height := num_of_chain strung.linked
  have recent := pushBlock_recent before accepts
  have window := windowed (by simp)
  obtain ⟨pointer, rfl, _⟩ := pushBlock_inserts accepts
  rw [List.length_cons] at lower window
  rw [same, height] at recent
  -- a block of the chain that is accepted is in the index already
  have apart : ¬ forkDb.Cached block → block ∉ first :: rest := fun absent member =>
    absent (strung.high block member (by omega))
  have heads := insertItem_head top
  have stays : forkDb.head = some newHead ∧ hashing.num block ≤ hashing.num newHead.block := by
    rcases heads with stays | ⟨rfl, above⟩
    · exact stays
    · have higher := above head before
      rw [same, height] at higher
      dsimp only at lower higher
      omega
  rw [before] at stays
  refine ⟨⟨wired, strung.linked, fun item member => ?_, fun other below split => ?_,
    (fun none => by cases none), fun item member other memberOther equal => ?_,
    fun item member onChain => ?_, fun other member low => ?_,
    fun item member onChain other memberOther named => ?_⟩, fun _ => window⟩
  · rcases insertItem_mem.mp member with old | ⟨rfl, _⟩
    · exact strung.level item old
    · rw [List.length_cons]
      dsimp only
      omega
  · cases split
    exact ⟨head, insertItem_index _ indexed, by rw [top]; exact stays.1.symm, same⟩
  · rcases insertItem_mem.mp member with old | ⟨rfl, absent⟩ <;>
      rcases insertItem_mem.mp memberOther with oldOther | ⟨rfl, absentOther⟩
    · exact strung.unique item old other oldOther equal
    · exact absurd ⟨item, old, equal⟩ absentOther
    · exact absurd ⟨other, oldOther, equal.symm⟩ absent
    · rfl
  · rcases insertItem_mem.mp member with old | ⟨rfl, absent⟩
    · exact strung.low item old onChain
    · exact absurd onChain (apart absent)
  · obtain ⟨item, itemIndexed, named⟩ := strung.high other member low
    exact ⟨item, insertItem_index _ itemIndexed, named⟩
  · rcases insertItem_mem.mp member with old | ⟨rfl, absent⟩
    · rcases insertItem_mem.mp memberOther with oldOther | ⟨rfl, absentOther⟩
      · exact strung.back item old onChain other oldOther named
      · exact absurd (mem_previous strung.linked onChain named) (apart absentOther)
    · exact absurd onChain (apart absent)

/-- A block on top of the chain becomes the end of the strand. -/
theorem Strung.extended (strung : Strung hashing chain irreversible forkDb)
    (accepts : forkDb.pushBlock hashing block = .ok pushed) (top : pushed.head = some newHead)
    (within : irreversible ≤ chain.length)
    (named : newHead.block.previous = tip hashing chain) :
    newHead.block = block ∧
      ∀ raised, irreversible ≤ raised → raised ≤ chain.length + 1 →
        Strung hashing (block :: chain) raised
            ((pushed.pin [newHead]).setMaxSize hashing (chain.length + 1 - raised + 1)) ∧
          Windowed (block :: chain) raised
            ((pushed.pin [newHead]).setMaxSize hashing (chain.length + 1 - raised + 1)) := by
  have wired := strung.wired.pushBlock accepts
  have height : hashing.num newHead.block = chain.length + 1 := by
    rw [Hashing.num, named, num_tip strung.linked]
  obtain ⟨pointer, rfl, leads⟩ := pushBlock_inserts accepts
  have new : newHead = ⟨forkDb.nextSerial, block, pointer⟩ := by
    rcases insertItem_head top with ⟨old, _⟩ | ⟨same, _⟩
    · cases chain with
      | nil =>
        rw [(strung.empty rfl).1] at old
        cases old
      | cons first rest =>
        obtain ⟨head, indexed, before, same⟩ := strung.top first rest rfl
        rw [before] at old
        cases old
        rw [same, num_of_chain strung.linked, List.length_cons] at height
        omega
    · exact same
  subst new
  have absent : ¬ forkDb.Cached block := by
    rintro ⟨item, indexed, same⟩
    have bound := strung.level item indexed
    rw [same] at bound
    dsimp only at height
    omega
  have linked : IsChain hashing (block :: chain) := ⟨named, strung.linked⟩
  refine ⟨rfl, fun raised higher bounded => Strung.setMaxSize ?_ higher bounded⟩
  refine Strung.of_pin ⟨wired, linked, fun item member => ?_, fun other below split => ?_,
    (fun none => by cases none), fun item member other memberOther equal => ?_,
    fun item member onChain => ?_, fun other member low => ?_,
    fun item member onChain other memberOther previous => ?_⟩ ?_
  · rcases insertItem_mem.mp member with old | ⟨rfl, _⟩
    · exact Nat.le_succ_of_le (strung.level item old)
    · exact Nat.le_of_eq height
  · cases split
    exact ⟨_, insertItem_mem.mpr (.inr ⟨rfl, absent⟩), top, rfl⟩
  · rcases insertItem_mem.mp member with old | ⟨rfl, _⟩ <;>
      rcases insertItem_mem.mp memberOther with oldOther | ⟨rfl, _⟩
    · exact strung.unique item old other oldOther equal
    · exact absurd ⟨item, old, equal⟩ absent
    · exact absurd ⟨other, oldOther, equal.symm⟩ absent
    · rfl
  · rcases insertItem_mem.mp member with old | ⟨rfl, _⟩
    · rcases List.mem_cons.mp onChain with same | lower
      · exact absurd ⟨item, old, same⟩ absent
      · exact strung.low item old lower
    · dsimp only at height ⊢
      omega
  · rcases List.mem_cons.mp member with rfl | lower
    · exact ⟨_, insertItem_mem.mpr (.inr ⟨rfl, absent⟩), rfl⟩
    · obtain ⟨item, itemIndexed, same⟩ := strung.high other lower low
      exact ⟨item, insertItem_index _ itemIndexed, same⟩
  · rcases insertItem_mem.mp member with old | ⟨rfl, _⟩
    · have itemLower : item.block ∈ chain := by
        rcases List.mem_cons.mp onChain with same | lower
        · exact absurd ⟨item, old, same⟩ absent
        · exact lower
      rcases insertItem_mem.mp memberOther with oldOther | ⟨rfl, _⟩
      · exact strung.back item old itemLower other oldOther previous
      · have above := num_of_previous previous
        have bound := strung.level item old
        dsimp only at above height
        omega
    · rcases insertItem_mem.mp memberOther with oldOther | ⟨rfl, _⟩
      · dsimp only at previous ⊢
        rcases leads with ⟨_, headless | first⟩ | ⟨below, found, rfl⟩
        · cases chain with
          | nil =>
            rw [(strung.empty rfl).2] at oldOther
            cases oldOther
          | cons first rest =>
            obtain ⟨head, _, before, _⟩ := strung.top first rest rfl
            rw [headless] at before
            cases before
        · have numbers := hashing.numFromId_id other.block
          rw [previous, first, hashing.numFromId_null] at numbers
          omega
        · obtain ⟨id, indexed⟩ := fetchBlock_id found
          rw [strung.unique other oldOther below indexed
            (hashing.injective (previous.trans id.symm))]
      · have above := num_of_previous previous
        omega
  · intro item member
    rw [List.mem_singleton] at member
    exact mem_alive.mpr (.inr (.inl (member ▸ top)))

end ForkDatabase

namespace Database

/-- The head of the fork database is the head of the chain, and the pointers from it run
through the chain down to its oldest cached block. -/
structure HeadsAgree (chain : List (Block Id Tx H)) (database : Database hashing R) : Prop where
  none : chain = [] → database.forkDb.head = none
  head : chain ≠ [] → ∃ head, database.forkDb.head = some head ∧
    hashing.id head.block = database.core.headBlockId
  links : (database.forkDb.strand chain.length database.forkDb.head).map ForkItem.block =
    chain.take (database.forkDb.strand chain.length database.forkDb.head).length
  oldest : ∀ item ∈ database.forkDb.index, item.block ∈ chain →
    item ∈ database.forkDb.strand chain.length database.forkDb.head

variable [DecidableEq Id] (processing : Processing Id Tx H R)

/-- A push that the fork database refuses, or that returns without a switch of forks. -/
def straight (block : Block Id Tx H) (database : Database hashing R) : Bool :=
  match database.forkDb.pushBlock hashing block with
  | .error _ => true
  | .ok _ =>
    !attemptsSwitch block database && (thrownBy (pushUnprotected processing block database)).isNone

/-- A run in which every push is straight. -/
def straightRun : List (Call Id Tx H) → Database hashing R → Bool
  | [], _ => true
  | .pushBlock block :: rest, database =>
    straight processing block database.clearPending &&
      straightRun rest (afterCall processing (.pushBlock block) database)
  | .pushTransaction transaction :: rest, database =>
    straightRun rest (afterCall processing (.pushTransaction transaction) database)

/-- The two heads on one chain, without a pending session. -/
structure Together (genesis : R) (chain : List (Block Id Tx H)) (database : Database hashing R) :
    Prop where
  replayed : stateAfter hashing processing genesis chain = some database.store.current
  strung : database.forkDb.Strung hashing chain database.core.lastIrreversibleBlockNum
  windowed : database.forkDb.Windowed chain database.core.lastIrreversibleBlockNum
  idle : database.pendingSession = false

variable {processing} {genesis : R} {chain : List (Block Id Tx H)}
  {database reached : Database hashing R} {block : Block Id Tx H}

/-- A straight push keeps the heads together. -/
theorem pushUnprotected_together (together : Together processing genesis chain database)
    (straightly : straight processing block database = true) :
    ∃ next, Together processing genesis next (left (pushUnprotected processing block database)) := by
  unfold straight at straightly
  cases accepts : database.forkDb.pushBlock hashing block with
  | error thrown =>
    refine ⟨chain, ?_⟩
    simp only [pushUnprotected, accepts, left]
    exact together
  | ok forkDb =>
    obtain ⟨newHead, top⟩ := ForkDatabase.pushBlock_head accepts
    simp only [accepts, Bool.and_eq_true, Bool.not_eq_true'] at straightly
    obtain ⟨plain, returns⟩ := straightly
    have reachedCore := stateAfter_reached together.replayed
    have number : database.core.headBlockNumber = chain.length := reachedCore.number
    have headAlive : [newHead] ⊆ forkDb.alive := by
      intro item member
      rw [List.mem_singleton] at member
      exact ForkDatabase.mem_alive.mpr (.inr (.inl (member ▸ top)))
    simp only [attemptsSwitch, accepts, top, decide_eq_false_iff_not] at plain
    simp only [pushUnprotected, accepts, top] at returns ⊢
    split
    · rename_i apart
      have lower : ¬ hashing.num newHead.block > database.core.headBlockNumber :=
        fun above => plain ⟨apart, above⟩
      rw [if_neg lower]
      obtain ⟨strung, windowed⟩ := together.strung.ignored together.windowed accepts top
        (by rw [← number]; omega)
      exact ⟨chain, together.replayed, strung.of_pin headAlive, windowed, together.idle⟩
    · rename_i extending
      rw [if_neg extending] at returns
      have named : newHead.block.previous = tip hashing chain :=
        (not_not.mp extending).trans reachedCore.head
      obtain ⟨same, extend⟩ :=
        together.strung.extended accepts top reachedCore.irreversible named
      have frame := tryBlock_frame processing block
        { database with forkDb := forkDb.pin [newHead] }
      cases tried : tryBlock processing block { database with forkDb := forkDb.pin [newHead] } with
      | error thrown stuck =>
        rw [tried] at returns
        cases returns
      | ok _ after =>
        rw [tried] at frame
        obtain ⟨state, prepares, finishes, irreversible, _, trimmed⟩ := tryBlock_ok tried
        have whole : applied hashing processing block database.store.current =
            .ok () after.store.current := andThen_ok.mpr ⟨state, prepares, finishes⟩
        obtain ⟨next, higher⟩ := reachedCore.step whole
        obtain ⟨_, _, _, num, _, raised⟩ := prepared_ok prepares
        have height : state.core.headBlockNumber = chain.length + 1 := by
          rw [raised]
          exact num_of_chain next.linked
        obtain ⟨strung, windowed⟩ := extend after.core.lastIrreversibleBlockNum higher
          next.irreversible
        rw [height, ← irreversible] at trimmed
        dsimp only at trimmed
        refine ⟨block :: chain, stateAfter_cons.mpr ⟨_, together.replayed, whole⟩, ?_, ?_,
          frame.1.trans together.idle⟩
        · rw [left, trimmed]
          exact strung
        · rw [left, trimmed]
          exact windowed

/-- Together with the pending transactions set apart. -/
structure Aligned (processing : Processing Id Tx H R) (genesis : R) (chain : List (Block Id Tx H))
    (database : Database hashing R) : Prop where
  together : Together processing genesis chain database.clearPending
  opened : PendingOpen database
  core : database.core = database.clearPending.core
  unpinned : database.forkDb.pinned = []

/-- One call of a straight run. -/
theorem afterCall_aligned {call : Call Id Tx H} {rest : List (Call Id Tx H)}
    (aligned : Aligned processing genesis chain database)
    (straightly : straightRun processing (call :: rest) database = true) :
    ∃ next, Aligned processing genesis next (afterCall processing call database) ∧
      straightRun processing rest (afterCall processing call database) = true := by
  cases call with
  | pushTransaction transaction =>
    obtain ⟨settled, stacked⟩ :=
      @pushPending_settled _ _ _ _ _ processing _ transaction aligned.opened
    obtain ⟨_, forkDb⟩ := @pushPending_frame _ _ _ _ hashing processing transaction database
    have kept : (left (pushPending processing transaction database)).clearPending.forkDb =
        database.clearPending.forkDb := by
      rw [(clearPending_frame _).2, (clearPending_frame _).2, forkDb]
    have sameCore : (left (pushPending processing transaction database)).clearPending.core =
        database.clearPending.core := congrArg (fun store => store.current.core) settled
    refine ⟨chain, ⟨⟨?_, ?_, ?_, clearPending_idle _⟩, stacked, ?_, forkDb ▸ aligned.unpinned⟩,
      straightly⟩
    · exact (congrArg UndoStore.current settled) ▸ aligned.together.replayed
    · exact kept ▸ sameCore ▸ aligned.together.strung
    · exact kept ▸ sameCore ▸ aligned.together.windowed
    · exact (pushPending_core transaction database).trans (aligned.core.trans sameCore.symm)
  | pushBlock block =>
    obtain ⟨straightly, later⟩ := Bool.and_eq_true_iff.mp straightly
    obtain ⟨next, together⟩ := pushUnprotected_together aligned.together straightly
    have finish : afterCall processing (.pushBlock block) database =
        finishPush processing database.pendingTx
          (left (pushUnprotected processing block database.clearPending)) :=
      left_pushBlock processing block database
    obtain ⟨settled, stacked⟩ :=
      @finishPush_settled _ _ _ _ _ processing _ database.pendingTx together.idle
    rw [finish] at later ⊢
    have forkDb := (clearPending_frame (finishPush processing database.pendingTx
      (left (pushUnprotected processing block database.clearPending)))).2
    rw [finishPush_forkDb] at forkDb
    have sameCore : (finishPush processing database.pendingTx
        (left (pushUnprotected processing block database.clearPending))).clearPending.core =
        (left (pushUnprotected processing block database.clearPending)).core :=
      congrArg (fun store => store.current.core) settled
    refine ⟨next, ⟨⟨?_, ?_, ?_, clearPending_idle _⟩, stacked, ?_, ?_⟩, later⟩
    · exact (congrArg UndoStore.current settled) ▸ together.replayed
    · rw [forkDb, sameCore]
      exact together.strung.of_pin (List.nil_subset _)
    · rw [forkDb, sameCore]
      exact together.windowed
    · rw [finishPush_core, sameCore]
    · rw [finishPush_forkDb]
      rfl

theorem aligned_genesis (processing : Processing Id Tx H R) (genesis : R) :
    Aligned processing genesis [] (Database.genesis hashing genesis) where
  together := ⟨rfl, ForkDatabase.strung_empty hashing, fun nonempty => absurd rfl nonempty, rfl⟩
  opened session := by simp [Database.genesis] at session
  core := rfl
  unpinned := rfl

theorem Aligned.headsAgree (aligned : Aligned processing genesis chain database) :
    HeadsAgree chain database := by
  have strung := aligned.together.strung
  rw [(clearPending_frame database).2] at strung
  have headId : database.core.headBlockId = tip hashing chain := by
    rw [aligned.core]
    exact (stateAfter_reached aligned.together.replayed).head
  cases chain with
  | nil =>
    obtain ⟨headless, empty⟩ := strung.empty rfl
    refine ⟨fun _ => headless, fun nonempty => absurd rfl nonempty, ?_, ?_⟩
    · rw [headless, ForkDatabase.strand_none]
      rfl
    · intro item indexed
      rw [empty] at indexed
      cases indexed
  | cons block rest =>
    obtain ⟨head, indexed, top, rfl⟩ := strung.top block rest rfl
    obtain ⟨links, oldest⟩ :=
      strung.strand_from aligned.unpinned (List.nil_append _).symm indexed (Nat.lt_succ_self _)
    refine ⟨(fun none => by cases none), fun _ => ⟨head, top, by rw [headId]; rfl⟩, ?_, ?_⟩
    · rw [top]
      exact links
    · rw [top]
      exact oldest

/-- After every straight run from genesis the fork database's head is the head of the
applied chain, and its pointers run through that chain. -/
theorem straight_run_heads_agree (processing : Processing Id Tx H R) (genesis : R)
    (calls : List (Call Id Tx H))
    (straightly : straightRun processing calls (Database.genesis hashing genesis) = true) :
    ∃ chain, AppliedChain processing genesis chain
        (afterCalls processing calls (Database.genesis hashing genesis)) ∧
      HeadsAgree chain (afterCalls processing calls (Database.genesis hashing genesis)) := by
  have run : ∀ (calls : List (Call Id Tx H)) (database : Database hashing R)
      (chain : List (Block Id Tx H)), Aligned processing genesis chain database →
      straightRun processing calls database = true →
        ∃ next, Aligned processing genesis next (afterCalls processing calls database) := by
    intro calls
    induction calls with
    | nil => exact fun database chain aligned _ => ⟨chain, aligned⟩
    | cons call rest inductionHypothesis =>
      intro database chain aligned straightly
      obtain ⟨next, step, later⟩ := afterCall_aligned aligned straightly
      exact inductionHypothesis _ next step later
  obtain ⟨chain, aligned⟩ := run calls _ [] (aligned_genesis processing genesis) straightly
  exact ⟨chain, aligned.together.replayed, aligned.headsAgree⟩

end Database

namespace SignedChain

/-- Two blocks of one branch and an ignored block of another. -/
theorem straight_run_agrees :
    ∃ chain, Database.AppliedChain processing () chain
        (Database.afterCalls processing (pushes "alice" [] 2 ++ pushes "bob" [] 1) node) ∧
      Database.HeadsAgree chain
        (Database.afterCalls processing (pushes "alice" [] 2 ++ pushes "bob" [] 1) node) :=
  Database.straight_run_heads_agree processing () (pushes "alice" [] 2 ++ pushes "bob" [] 1)
    (by decide +kernel)

/-- The switch to the second branch leaves the fork database's head one block below. -/
theorem switched_heads_apart :
    ¬ ∃ chain, Database.AppliedChain processing () chain
        (Database.afterCalls processing (pushes "alice" [] 1 ++ pushes "bob" [] 2) node) ∧
      Database.HeadsAgree chain
        (Database.afterCalls processing (pushes "alice" [] 1 ++ pushes "bob" [] 2) node) := by
  rintro ⟨chain, _, agree⟩
  have forkHead : (Database.afterCalls processing (pushes "alice" [] 1 ++ pushes "bob" [] 2)
      node).forkDb.head.map (fun head => (Hashing.spelled Unit Bool).id head.block) =
      some (branch "bob" 1 []) := by decide +kernel
  have head : (Database.afterCalls processing (pushes "alice" [] 1 ++ pushes "bob" [] 2)
      node).core.headBlockId = branch "bob" 2 [] := by decide +kernel
  by_cases empty : chain = []
  · rw [agree.none empty] at forkHead
    cases forkHead
  · obtain ⟨item, top, same⟩ := agree.head empty
    rw [top, Option.map_some, same, head] at forkHead
    exact absurd forkHead (by decide)

end SignedChain

end DeipChain.Chain
