import DeipChain.Chain.Lineage

/-!
# The branches of the fork database

A prev pointer that is alive leads to the block that the item names as previous. From
this alone follows what the node reads out of the fork database: walking down from an
item on a chain stays on the chain, so that a block looked up by its height is the one
of the chain, provided that the fork database's head is on the chain and the chain's
block of that height is in the index.
-/
namespace DeipChain.Chain

open Snapshots

variable {Id Tx H R : Type} {hashing : Hashing Id Tx H}

section Chains

variable {chain above : List (Block Id Tx H)} {block other : Block Id Tx H} {height : Nat}

theorem mem_of_blockAt (found : blockAt chain height = some block) : block ∈ chain := by
  unfold blockAt at found
  split at found
  · cases found
  · exact List.mem_reverse.mp (List.mem_of_getElem? found)

theorem blockAt_height (found : blockAt chain height = some block) :
    0 < height ∧ height ≤ chain.length := by
  unfold blockAt at found
  split at found
  · cases found
  · have bound := (List.getElem?_eq_some_iff.mp found).1
    rw [List.length_reverse] at bound
    omega

theorem blockAt_of_le (positive : 0 < height) (within : height ≤ chain.length) :
    ∃ block, blockAt chain height = some block := by
  unfold blockAt
  rw [if_neg (by omega)]
  exact ⟨_, List.getElem?_eq_getElem (by rw [List.length_reverse]; omega)⟩

/-- The block at a height of a chain has that number. -/
theorem num_of_blockAt (linked : IsChain hashing chain)
    (found : blockAt chain height = some block) : hashing.num block = height := by
  induction chain with
  | nil => simp [blockAt] at found
  | cons first rest inductionHypothesis =>
    have bound := (blockAt_height found).2
    rw [List.length_cons] at bound
    by_cases top : height = rest.length + 1
    · subst top
      rw [blockAt_cons_top, Option.some.injEq] at found
      rw [← found, num_of_chain linked]
    · rw [blockAt_cons_below (by omega)] at found
      exact inductionHypothesis linked.2 found

/-- A chain has one block of each number. -/
theorem eq_of_num (linked : IsChain hashing chain) (member : block ∈ chain)
    (memberOther : other ∈ chain) (same : hashing.num block = hashing.num other) :
    block = other := by
  have found := blockAt_num linked member
  rw [same, blockAt_num linked memberOther] at found
  exact (Option.some.inj found).symm

theorem num_le_length (linked : IsChain hashing chain) (member : block ∈ chain) :
    0 < hashing.num block ∧ hashing.num block ≤ chain.length :=
  blockAt_height (blockAt_num linked member)

/-- A block of a chain that is low enough lies on its lower part. -/
theorem mem_lower (linked : IsChain hashing (above ++ chain)) (member : block ∈ above ++ chain)
    (low : hashing.num block ≤ chain.length) : block ∈ chain := by
  have found := blockAt_num linked member
  rw [blockAt_append low] at found
  exact mem_of_blockAt found

/-- The block below a block of a chain is on the chain. -/
theorem mem_previous (linked : IsChain hashing chain) (member : block ∈ chain)
    (named : hashing.id other = block.previous) : other ∈ chain := by
  induction chain with
  | nil => cases member
  | cons first rest inductionHypothesis =>
    rcases List.mem_cons.mp member with rfl | inRest
    · rw [linked.1] at named
      cases rest with
      | nil =>
        have numbers := hashing.numFromId_id other
        rw [named, tip, hashing.numFromId_null] at numbers
        omega
      | cons second rest =>
        rw [hashing.injective named]
        exact List.mem_cons_of_mem _ List.mem_cons_self
    · exact List.mem_cons_of_mem _ (inductionHypothesis linked.2 inRest)

/-- A block that names another as previous is one higher. -/
theorem num_of_previous (named : hashing.id other = block.previous) :
    hashing.num block = hashing.num other + 1 := by
  rw [Hashing.num, ← named, hashing.numFromId_id, Hashing.num]

end Chains

namespace ForkDatabase

variable {forkDb smaller : ForkDatabase Id Tx H} {item prev : ForkItem Id Tx H}
  {chain : List (Block Id Tx H)}

/-- The live items have serials of their own, all used before, and a live prev pointer
leads to the block named as previous. -/
structure Wired (hashing : Hashing Id Tx H) (forkDb : ForkDatabase Id Tx H) : Prop where
  distinct : ∀ item ∈ forkDb.alive, ∀ other ∈ forkDb.alive, item.serial = other.serial →
    item = other
  used : ∀ item ∈ forkDb.alive, item.serial < forkDb.nextSerial ∧
    ∀ serial, item.prev = some serial → serial < forkDb.nextSerial
  links : ∀ item ∈ forkDb.alive, ∀ other ∈ forkDb.alive, item.prev = some other.serial →
    hashing.id other.block = item.block.previous

/-- A block stands in the index. -/
def Cached (forkDb : ForkDatabase Id Tx H) (block : Block Id Tx H) : Prop :=
  ∃ item ∈ forkDb.index, item.block = block

theorem wired_empty : Wired hashing (ForkDatabase.empty : ForkDatabase Id Tx H) where
  distinct := by simp [alive, ForkDatabase.empty]
  used := by simp [alive, ForkDatabase.empty]
  links := by simp [alive, ForkDatabase.empty]

/-- Items that go take no pointer to another place. -/
theorem Wired.mono (wired : Wired hashing forkDb) (fewer : smaller.alive ⊆ forkDb.alive)
    (later : forkDb.nextSerial ≤ smaller.nextSerial) : Wired hashing smaller where
  distinct item member other memberOther := wired.distinct item (fewer member) other
    (fewer memberOther)
  used item member := by
    obtain ⟨serial, prev⟩ := wired.used item (fewer member)
    exact ⟨Nat.lt_of_lt_of_le serial later,
      fun serial named => Nat.lt_of_lt_of_le (prev serial named) later⟩
  links item member other memberOther := wired.links item (fewer member) other
    (fewer memberOther)

theorem mem_alive : item ∈ forkDb.alive ↔
    item ∈ forkDb.index ∨ forkDb.head = some item ∨ item ∈ forkDb.pinned := by
  simp [alive]

/-- Where a prev pointer leads. -/
theorem lock_some (locked : forkDb.lock item = some prev) :
    prev ∈ forkDb.alive ∧ item.prev = some prev.serial := by
  obtain ⟨serial, named, found⟩ := Option.bind_eq_some_iff.mp locked
  have same := List.find?_some found
  rw [decide_eq_true_eq] at same
  exact ⟨List.mem_of_find?_eq_some found, by rw [named, same]⟩

/-- A prev pointer to a live item leads there. -/
theorem Wired.lock_eq (wired : Wired hashing forkDb) (named : item.prev = some prev.serial)
    (member : prev ∈ forkDb.alive) : forkDb.lock item = some prev := by
  rw [lock, named, Option.bind_some]
  cases found : forkDb.alive.find? (fun other => other.serial = prev.serial) with
  | none =>
    have missing := List.find?_eq_none.mp found prev member
    simp at missing
  | some other =>
    have same := List.find?_some found
    rw [decide_eq_true_eq] at same
    rw [wired.distinct other (List.mem_of_find?_eq_some found) prev member same]

theorem Wired.lock_previous (wired : Wired hashing forkDb) (member : item ∈ forkDb.alive)
    (locked : forkDb.lock item = some prev) : hashing.id prev.block = item.block.previous := by
  obtain ⟨memberPrev, named⟩ := lock_some locked
  exact wired.links item member prev memberPrev named

/-- The walk down from an item of a chain finds the chain's block of the height. -/
theorem Wired.walkFrom_mem (wired : Wired hashing forkDb) (linked : IsChain hashing chain)
    {num fuel : Nat} {found : ForkItem Id Tx H} (member : item ∈ forkDb.alive)
    (onChain : item.block ∈ chain) (above : num ≤ hashing.num item.block)
    (walk : walkFrom hashing forkDb num fuel item = some found) :
    found.block ∈ chain ∧ hashing.num found.block = num := by
  induction fuel generalizing item with
  | zero =>
    unfold walkFrom at walk
    split at walk
    · cases walk
    · cases walk
      exact ⟨onChain, by omega⟩
  | succ fuel inductionHypothesis =>
    unfold walkFrom at walk
    split at walk
    · obtain ⟨below, locked, further⟩ := Option.bind_eq_some_iff.mp walk
      have named := wired.lock_previous member locked
      have lower := num_of_previous named
      exact inductionHypothesis (lock_some locked).1 (mem_previous linked onChain named)
        (by omega) further
    · cases walk
      exact ⟨onChain, by omega⟩

/-- The block looked up by the height of a cached block of the chain is that block, as
long as the head of the fork database is on the chain. -/
theorem Wired.fetch_onChain (wired : Wired hashing forkDb) (linked : IsChain hashing chain)
    {head found : ForkItem Id Tx H} {block : Block Id Tx H} (top : forkDb.head = some head)
    (onChain : head.block ∈ chain) (member : block ∈ chain) (cached : forkDb.Cached block)
    (fetched : forkDb.fetchBlockOnMainBranchByNumber hashing (hashing.num block) = some found) :
    found.block = block := by
  unfold fetchBlockOnMainBranchByNumber at fetched
  obtain ⟨item, indexed, rfl⟩ := cached
  have present : item ∈ forkDb.fetchBlockByNumber hashing (hashing.num item.block) := by
    simp [fetchBlockByNumber, indexed]
  split at fetched
  · rename_i lone alone
    rw [alone, List.mem_singleton] at present
    cases fetched
    rw [present]
  · cases fetched
  · unfold walkMainBranchToNum at fetched
    rw [top, Option.bind_some] at fetched
    split at fetched
    · cases fetched
    · have headAlive : head ∈ forkDb.alive := mem_alive.mpr (.inr (.inl top))
      obtain ⟨foundOn, height⟩ :=
        wired.walkFrom_mem linked headAlive onChain (by omega) fetched
      exact eq_of_num linked foundOn member height

/-- Dropping the items below a height keeps the pointers of the others. -/
theorem Wired.setMaxSize (wired : Wired hashing forkDb) (size : Nat) :
    Wired hashing (forkDb.setMaxSize hashing size) := by
  refine wired.mono (fun item member => ?_) ?_
  · unfold ForkDatabase.setMaxSize at member
    split at member
    · exact member
    · simp only [mem_alive, List.mem_filter] at member ⊢
      tauto
  · unfold ForkDatabase.setMaxSize
    split <;> exact Nat.le_refl _

theorem setMaxSize_head (size : Nat) : (forkDb.setMaxSize hashing size).head = forkDb.head := by
  unfold ForkDatabase.setMaxSize
  split
  · rfl
  · rfl

theorem setMaxSize_pinned (size : Nat) :
    (forkDb.setMaxSize hashing size).pinned = forkDb.pinned := by
  unfold ForkDatabase.setMaxSize
  split <;> rfl

theorem setMaxSize_index (size : Nat) :
    (forkDb.setMaxSize hashing size).index ⊆ forkDb.index := by
  unfold ForkDatabase.setMaxSize
  split
  · exact fun _ member => member
  · exact fun _ member => (List.mem_filter.mp member).1

/-- A cached block that is not too low stays in the index. -/
theorem Cached.setMaxSize {block : Block Id Tx H} (cached : forkDb.Cached block) {size : Nat}
    (high : ∀ head, forkDb.head = some head →
      hashing.num head.block - size ≤ hashing.num block) :
    (forkDb.setMaxSize hashing size).Cached block := by
  obtain ⟨item, indexed, rfl⟩ := cached
  unfold ForkDatabase.setMaxSize
  split
  · exact ⟨item, indexed, rfl⟩
  · rename_i head top
    refine ⟨item, List.mem_filter.mpr ⟨indexed, ?_⟩, rfl⟩
    rw [decide_eq_true_eq]
    exact high head top

/-- Local pointers to live items change nothing. -/
theorem Wired.pin (wired : Wired hashing forkDb) {items : List (ForkItem Id Tx H)}
    (held : items ⊆ forkDb.alive) : Wired hashing (forkDb.pin items) := by
  refine wired.mono (fun item member => ?_) (Nat.le_refl _)
  rcases mem_alive.mp member with indexed | top | inItems
  · exact mem_alive.mpr (.inl indexed)
  · exact mem_alive.mpr (.inr (.inl top))
  · exact held inItems

theorem Wired.setHead (wired : Wired hashing forkDb) (held : item ∈ forkDb.alive) :
    Wired hashing (forkDb.setHead item) := by
  refine wired.mono (fun other member => ?_) (Nat.le_refl _)
  rcases mem_alive.mp member with indexed | top | pinned
  · exact mem_alive.mpr (.inl indexed)
  · cases top
    exact held
  · exact mem_alive.mpr (.inr (.inr pinned))

theorem descend_alive {num fuel : Nat} {last : ForkItem Id Tx H}
    {upper : List (ForkItem Id Tx H)} (member : item ∈ forkDb.alive)
    (done : descend hashing forkDb num fuel item = some (upper, last)) :
    upper ⊆ forkDb.alive ∧ last ∈ forkDb.alive := by
  induction fuel generalizing item upper with
  | zero =>
    unfold descend at done
    split at done
    · cases done
    · cases done
      exact ⟨List.nil_subset _, member⟩
  | succ fuel inductionHypothesis =>
    unfold descend at done
    split at done
    · obtain ⟨below, locked, further⟩ := Option.bind_eq_some_iff.mp done
      obtain ⟨⟨rest, final⟩, descends, same⟩ := Option.map_eq_some_iff.mp further
      cases same
      obtain ⟨restAlive, lastAlive⟩ := inductionHypothesis (lock_some locked).1 descends
      exact ⟨List.cons_subset.mpr ⟨member, restAlive⟩, lastAlive⟩
    · cases done
      exact ⟨List.nil_subset _, member⟩

variable [DecidableEq Id]

/-- What a push into the fork database has inserted, and where its prev pointer leads. -/
theorem pushBlock_inserts {block : Block Id Tx H} {pushed : ForkDatabase Id Tx H}
    (done : forkDb.pushBlock hashing block = .ok pushed) :
    ∃ pointer, pushed = forkDb.insertItem hashing ⟨forkDb.nextSerial, block, pointer⟩ ∧
      ((pointer = none ∧ (forkDb.head = none ∨ block.previous = hashing.null)) ∨
        ∃ below, forkDb.fetchBlock hashing block.previous = some below ∧
          pointer = some below.serial) := by
  unfold pushBlock at done
  split at done
  · rename_i headless
    exact ⟨none, (Except.ok.inj done).symm, .inl ⟨rfl, .inl headless⟩⟩
  · split at done
    · cases done
    · split at done
      · rename_i first
        exact ⟨none, (Except.ok.inj done).symm, .inl ⟨rfl, .inr first⟩⟩
      · split at done
        · cases done
        · rename_i below found
          exact ⟨some below.serial, (Except.ok.inj done).symm, .inr ⟨below, found, rfl⟩⟩

theorem insertItem_alive {other : ForkItem Id Tx H}
    (member : other ∈ (forkDb.insertItem hashing item).alive) :
    other = item ∨ other ∈ forkDb.alive := by
  rcases mem_alive.mp member with indexed | top | pinned
  · unfold insertItem at indexed
    dsimp only at indexed
    split at indexed
    · exact .inr (mem_alive.mpr (.inl indexed))
    · rcases List.mem_append.mp indexed with old | new
      · exact .inr (mem_alive.mpr (.inl old))
      · exact .inl (List.mem_singleton.mp new)
  · unfold insertItem at top
    dsimp only at top
    split at top
    · exact .inl (Option.some.inj top).symm
    · rename_i head before
      split at top
      · exact .inl (Option.some.inj top).symm
      · exact .inr (mem_alive.mpr (.inr (.inl (before.trans top))))
  · exact .inr (mem_alive.mpr (.inr (.inr pinned)))

/-- An inserted block is in the index, by a new item or by an older one. -/
theorem insertItem_cached_new (item : ForkItem Id Tx H) :
    (forkDb.insertItem hashing item).Cached item.block := by
  unfold insertItem Cached
  dsimp only
  split
  · rename_i present
    obtain ⟨older, found⟩ := Option.isSome_iff_exists.mp present
    obtain ⟨id, indexed⟩ := fetchBlock_id found
    exact ⟨older, indexed, hashing.injective id⟩
  · exact ⟨item, by simp, rfl⟩

theorem insertItem_index (item : ForkItem Id Tx H) :
    forkDb.index ⊆ (forkDb.insertItem hashing item).index := by
  intro other indexed
  unfold insertItem
  dsimp only
  split
  · exact indexed
  · exact List.mem_append_left _ indexed

/-- The head after an insertion is the old one or a higher item. -/
theorem insertItem_head {head : ForkItem Id Tx H}
    (top : (forkDb.insertItem hashing item).head = some head) :
    (forkDb.head = some head ∧ hashing.num item.block ≤ hashing.num head.block) ∨
      (head = item ∧ ∀ old, forkDb.head = some old →
        hashing.num old.block < hashing.num item.block) := by
  unfold insertItem at top
  dsimp only at top
  split at top
  · rename_i headless
    refine .inr ⟨(Option.some.inj top).symm, fun old before => ?_⟩
    rw [headless] at before
    cases before
  · rename_i old before
    split at top
    · rename_i higher
      refine .inr ⟨(Option.some.inj top).symm, fun other same => ?_⟩
      rw [before] at same
      cases same
      exact higher
    · rename_i lower
      cases top
      exact .inl ⟨before, Nat.le_of_not_lt lower⟩

/-- A pushed item takes a serial of its own and points to the block it names. -/
theorem Wired.pushBlock (wired : Wired hashing forkDb) {block : Block Id Tx H}
    {pushed : ForkDatabase Id Tx H} (done : forkDb.pushBlock hashing block = .ok pushed) :
    Wired hashing pushed := by
  obtain ⟨pointer, rfl, leads⟩ := pushBlock_inserts done
  have target : ∀ serial, pointer = some serial → ∃ below ∈ forkDb.alive,
      below.serial = serial ∧ hashing.id below.block = block.previous := by
    intro serial named
    rcases leads with ⟨null, _⟩ | ⟨below, found, named'⟩
    · rw [null] at named
      cases named
    · obtain ⟨id, indexed⟩ := fetchBlock_id found
      exact ⟨below, mem_alive.mpr (.inl indexed), by rw [named'] at named; exact Option.some.inj named, id⟩
  refine ⟨fun item member other memberOther same => ?_, fun item member => ?_,
    fun item member other memberOther named => ?_⟩
  · rcases insertItem_alive member with rfl | old <;>
      rcases insertItem_alive memberOther with rfl | oldOther
    · rfl
    · exact absurd same.symm (Nat.ne_of_lt (wired.used other oldOther).1)
    · exact absurd same (Nat.ne_of_lt (wired.used item old).1)
    · exact wired.distinct item old other oldOther same
  · rcases insertItem_alive member with rfl | old
    · refine ⟨Nat.lt_succ_self _, fun serial named => ?_⟩
      obtain ⟨below, alive, rfl, _⟩ := target serial named
      exact Nat.lt_succ_of_lt (wired.used below alive).1
    · obtain ⟨serial, prev⟩ := wired.used item old
      exact ⟨Nat.lt_succ_of_lt serial, fun serial named => Nat.lt_succ_of_lt (prev serial named)⟩
  · rcases insertItem_alive member with rfl | old <;>
      rcases insertItem_alive memberOther with rfl | oldOther
    · obtain ⟨below, alive, same, _⟩ := target _ named
      exact absurd same (Nat.ne_of_lt (wired.used below alive).1)
    · obtain ⟨below, alive, same, id⟩ := target _ named
      rw [← wired.distinct below alive other oldOther same]
      exact id
    · exact absurd ((wired.used item old).2 _ named) (Nat.lt_irrefl _)
    · exact wired.links item old other oldOther named

theorem meet_alive {fuel : Nat} {first second : ForkItem Id Tx H}
    {firstLower secondLower : List (ForkItem Id Tx H)} (memberFirst : first ∈ forkDb.alive)
    (memberSecond : second ∈ forkDb.alive)
    (done : meet forkDb fuel first second = some (firstLower, secondLower)) :
    firstLower ⊆ forkDb.alive ∧ secondLower ⊆ forkDb.alive := by
  induction fuel generalizing first second firstLower secondLower with
  | zero =>
    unfold meet at done
    split at done
    · cases done
      exact ⟨by simpa using memberFirst, by simpa using memberSecond⟩
    · cases done
  | succ fuel inductionHypothesis =>
    unfold meet at done
    split at done
    · cases done
      exact ⟨by simpa using memberFirst, by simpa using memberSecond⟩
    · obtain ⟨firstPrev, lockedFirst, further⟩ := Option.bind_eq_some_iff.mp done
      obtain ⟨secondPrev, lockedSecond, further⟩ := Option.bind_eq_some_iff.mp further
      obtain ⟨⟨firstRest, secondRest⟩, meets, same⟩ := Option.map_eq_some_iff.mp further
      cases same
      obtain ⟨restFirst, restSecond⟩ :=
        inductionHypothesis (lock_some lockedFirst).1 (lock_some lockedSecond).1 meets
      exact ⟨List.cons_subset.mpr ⟨memberFirst, restFirst⟩,
        List.cons_subset.mpr ⟨memberSecond, restSecond⟩⟩

/-- The branches of two blocks are made of live items. -/
theorem fetchBranchFrom_alive {first second : Id}
    {firstBranch secondBranch : List (ForkItem Id Tx H)}
    (done : forkDb.fetchBranchFrom hashing first second = some (firstBranch, secondBranch)) :
    firstBranch ⊆ forkDb.alive ∧ secondBranch ⊆ forkDb.alive := by
  obtain ⟨firstTop, secondTop, firstUpper, firstItem, secondUpper, secondItem, firstLower,
    secondLower, foundFirst, foundSecond, descendFirst, descendSecond, meets, rfl, rfl⟩ :=
    fetchBranchFrom_parts done
  obtain ⟨firstUpperAlive, firstItemAlive⟩ :=
    descend_alive (mem_alive.mpr (.inl (fetchBlock_id foundFirst).2)) descendFirst
  obtain ⟨secondUpperAlive, secondItemAlive⟩ :=
    descend_alive (mem_alive.mpr (.inl (fetchBlock_id foundSecond).2)) descendSecond
  obtain ⟨firstLowerAlive, secondLowerAlive⟩ := meet_alive firstItemAlive secondItemAlive meets
  exact ⟨List.append_subset.mpr ⟨firstUpperAlive, firstLowerAlive⟩,
    List.append_subset.mpr ⟨secondUpperAlive, secondLowerAlive⟩⟩

end ForkDatabase

end DeipChain.Chain
