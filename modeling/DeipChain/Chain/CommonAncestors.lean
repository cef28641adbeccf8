import DeipChain.Chain.Branches
import Mathlib.Logic.Relation

/-!
# The branches of two blocks

`fetch_branch_from` walks down from two blocks until both name the same previous block. As a live
prev pointer leads one block down, the item of each height is determined. So the walk stops at the
highest place where the branches meet, whatever the length of the branches.
-/
namespace DeipChain.Chain

namespace ForkDatabase

variable {Id Tx H : Type} {hashing : Hashing Id Tx H}
variable {forkDb : ForkDatabase Id Tx H} {item prev low other : ForkItem Id Tx H}

/-- The items that the prev pointers of an item lead to. -/
def Reaches (forkDb : ForkDatabase Id Tx H) : ForkItem Id Tx H → ForkItem Id Tx H → Prop :=
  Relation.ReflTransGen fun upper lower => forkDb.lock upper = some lower

/-- A block that the branch of an item builds on. -/
def Ancestor (forkDb : ForkDatabase Id Tx H) (id : Id) (item : ForkItem Id Tx H) : Prop :=
  ∃ low, forkDb.Reaches item low ∧ low.block.previous = id

/-- The contents of the fork database: blocks are pushed, and items dropped, as the node does
    it. -/
inductive Built [DecidableEq Id] (hashing : Hashing Id Tx H) : ForkDatabase Id Tx H → Prop where
  | empty : Built hashing .empty
  | pushed {forkDb pushed : ForkDatabase Id Tx H} {block : Block Id Tx H} (before : Built hashing forkDb)
      (done : forkDb.pushBlock hashing block = .ok pushed) : Built hashing pushed
  | resized {forkDb : ForkDatabase Id Tx H} (size : Nat) (before : Built hashing forkDb) :
      Built hashing (forkDb.setMaxSize hashing size)
  | removed {forkDb : ForkDatabase Id Tx H} (id : Id) (before : Built hashing forkDb) :
      Built hashing (forkDb.remove hashing id)
  | headed {forkDb : ForkDatabase Id Tx H} {item : ForkItem Id Tx H} (before : Built hashing forkDb)
      (held : item ∈ forkDb.alive) : Built hashing (forkDb.setHead item)

theorem Built.wired [DecidableEq Id] (built : Built hashing forkDb) : Wired hashing forkDb := by
  induction built with
  | empty => exact wired_empty
  | pushed _ done hypothesis => exact hypothesis.pushBlock done
  | resized size _ hypothesis => exact hypothesis.setMaxSize size
  | removed id _ hypothesis =>
    refine hypothesis.mono (fun item member => ?_) (Nat.le_refl _)
    simp only [mem_alive, remove, List.mem_filter] at member ⊢
    exact member.imp_left And.left
  | headed _ held hypothesis => exact hypothesis.setHead held

/-! ## One branch -/

theorem Reaches.alive (reaches : forkDb.Reaches item low) (held : item ∈ forkDb.alive) :
    low ∈ forkDb.alive := by
  induction reaches with
  | refl => exact held
  | tail _ locked _ => exact (lock_some locked).1

/-- A prev pointer that is followed is the same each time. -/
theorem lock_rightUnique (forkDb : ForkDatabase Id Tx H) :
    Relator.RightUnique fun upper lower => forkDb.lock upper = some lower :=
  fun _ _ _ locked again => Option.some.inj (locked.symm.trans again)

section Heights

variable (wired : Wired hashing forkDb) (held : item ∈ forkDb.alive)
include wired held

theorem Wired.lock_num (locked : forkDb.lock item = some prev) :
    hashing.num item.block = hashing.num prev.block + 1 :=
  num_of_previous (wired.lock_previous held locked)

theorem Wired.reaches_num (reaches : forkDb.Reaches item low) :
    hashing.num low.block ≤ hashing.num item.block := by
  induction reaches with
  | refl => exact Nat.le_refl _
  | tail before locked hypothesis =>
    have height := wired.lock_num (Reaches.alive before held) locked
    omega

theorem Wired.reaches_eq (reaches : forkDb.Reaches item low)
    (level : hashing.num item.block ≤ hashing.num low.block) : item = low := by
  rcases Relation.ReflTransGen.cases_head reaches with equal | ⟨below, locked, rest⟩
  · exact equal
  · have height := wired.lock_num held locked
    have bound := wired.reaches_num (lock_some locked).1 rest
    omega

/-- Of two items of a branch the higher one leads to the other one. -/
theorem Wired.reaches_lower (one : forkDb.Reaches item low) (two : forkDb.Reaches item other)
    (level : hashing.num other.block ≤ hashing.num low.block) : forkDb.Reaches low other := by
  rcases Relation.ReflTransGen.total_of_right_unique (lock_rightUnique forkDb) one two with
    down | up
  · exact down
  · rw [wired.reaches_eq (Reaches.alive two held) up level]
    exact .refl

end Heights

/-! ## Lists of a branch -/

/-- The items from one of them down to a lower one, along the prev pointers. -/
inductive Branch (forkDb : ForkDatabase Id Tx H) :
    ForkItem Id Tx H → List (ForkItem Id Tx H) → ForkItem Id Tx H → Prop where
  | single (item : ForkItem Id Tx H) : Branch forkDb item [item] item
  | step {item prev last : ForkItem Id Tx H} {items : List (ForkItem Id Tx H)}
      (locked : forkDb.lock item = some prev) (rest : Branch forkDb prev items last) :
      Branch forkDb item (item :: items) last

namespace Branch

variable {last : ForkItem Id Tx H} {items : List (ForkItem Id Tx H)}

theorem head (branch : forkDb.Branch item items last) : items.head? = some item := by
  cases branch with
  | single => rfl
  | step => rfl

theorem last_eq (branch : forkDb.Branch item items last) : items.getLast? = some last := by
  induction branch with
  | single => rfl
  | step locked rest hypothesis => rw [List.getLast?_cons, hypothesis, Option.getD_some]

/-- Each item lies between the first and the last one. -/
theorem between (branch : forkDb.Branch item items last) :
    ∀ other ∈ items, forkDb.Reaches item other ∧ forkDb.Reaches other last := by
  induction branch with
  | single item =>
    intro other member
    obtain rfl := List.mem_singleton.mp member
    exact ⟨.refl, .refl⟩
  | step locked rest hypothesis =>
    have down := (hypothesis _ (List.mem_of_mem_head? (Option.mem_def.mpr rest.head))).2
    rw [List.forall_mem_cons]
    refine ⟨⟨.refl, down.head locked⟩, fun other member => ?_⟩
    obtain ⟨above, below⟩ := hypothesis other member
    exact ⟨above.head locked, below⟩

theorem reaches (branch : forkDb.Branch item items last) : forkDb.Reaches item last :=
  (branch.between item (List.mem_of_mem_head? (Option.mem_def.mpr branch.head))).2

/-- Each block names the next one as its previous block. -/
theorem linked (wired : Wired hashing forkDb) (held : item ∈ forkDb.alive)
    (branch : forkDb.Branch item items last) :
    items.IsChain fun upper lower => upper.block.previous = hashing.id lower.block := by
  induction branch with
  | single item => exact .singleton item
  | step locked rest hypothesis =>
    have below := (lock_some locked).1
    cases rest with
    | single => exact .cons_cons (wired.lock_previous held locked).symm (.singleton _)
    | step again others =>
      exact .cons_cons (wired.lock_previous held locked).symm (hypothesis below)

end Branch

/-! ## The three loops -/

section Loops

variable {first second last firstLast secondLast : ForkItem Id Tx H} {num fuel : Nat}
  {upper firstLower secondLower : List (ForkItem Id Tx H)}

/-- The first loops go on along the branch, to the height if it is below the item. -/
theorem descend_branch (wired : Wired hashing forkDb) (held : item ∈ forkDb.alive)
    (done : descend hashing forkDb num fuel item = some (upper, low)) :
    (∀ items last, forkDb.Branch low items last → forkDb.Branch item (upper ++ items) last) ∧
      hashing.num low.block = min num (hashing.num item.block) := by
  induction fuel generalizing item upper with
  | zero =>
    rw [descend] at done
    by_cases above : hashing.num item.block > num
    · rw [if_pos above] at done
      cases done
    · rw [if_neg above, Option.some.injEq, Prod.mk.injEq] at done
      obtain ⟨rfl, rfl⟩ := done
      exact ⟨fun _ _ branch => branch, by omega⟩
  | succ fuel hypothesis =>
    rw [descend] at done
    by_cases above : hashing.num item.block > num
    · rw [if_pos above] at done
      obtain ⟨prev, locked, further⟩ := Option.bind_eq_some_iff.mp done
      obtain ⟨⟨rest, final⟩, descends, same⟩ := Option.map_eq_some_iff.mp further
      obtain ⟨rfl, rfl⟩ := Prod.mk.inj same
      obtain ⟨goes, level⟩ := hypothesis (lock_some locked).1 descends
      have height := wired.lock_num held locked
      refine ⟨fun items last branch => .step locked (goes items last branch), ?_⟩
      omega
    · rw [if_neg above, Option.some.injEq, Prod.mk.injEq] at done
      obtain ⟨rfl, rfl⟩ := done
      exact ⟨fun _ _ branch => branch, by omega⟩

theorem descend_runs (wired : Wired hashing forkDb) (held : item ∈ forkDb.alive)
    (enough : hashing.num item.block ≤ fuel) (reaches : forkDb.Reaches item low)
    (level : hashing.num low.block ≤ num) :
    ∃ upper lower, descend hashing forkDb num fuel item = some (upper, lower) := by
  induction fuel generalizing item with
  | zero =>
    rw [descend, if_neg (by omega)]
    exact ⟨_, _, rfl⟩
  | succ fuel hypothesis =>
    rw [descend]
    by_cases above : hashing.num item.block > num
    · rw [if_pos above]
      rcases Relation.ReflTransGen.cases_head reaches with equal | ⟨prev, locked, rest⟩
      · rw [equal] at above
        omega
      · have height := wired.lock_num held locked
        obtain ⟨upper, lower, ran⟩ := hypothesis (lock_some locked).1 (by omega) rest
        rw [locked, Option.bind_some, ran]
        exact ⟨_, _, rfl⟩
    · rw [if_neg above]
      exact ⟨_, _, rfl⟩

/-- The last loop goes down both branches to the highest place where they meet. -/
theorem meet_branches [DecidableEq Id] (wired : Wired hashing forkDb) (held : first ∈ forkDb.alive)
    (heldSecond : second ∈ forkDb.alive)
    (level : hashing.num first.block = hashing.num second.block)
    (done : meet forkDb fuel first second = some (firstLower, secondLower)) :
    ∃ firstLast secondLast, forkDb.Branch first firstLower firstLast ∧
      forkDb.Branch second secondLower secondLast ∧
      firstLast.block.previous = secondLast.block.previous ∧
      ∀ one two, forkDb.Reaches first one → forkDb.Reaches second two →
        one.block.previous = two.block.previous →
          hashing.num one.block ≤ hashing.num firstLast.block := by
  induction fuel generalizing first second firstLower secondLower with
  | zero =>
    rw [meet] at done
    by_cases same : first.block.previous = second.block.previous
    · rw [if_pos same, Option.some.injEq, Prod.mk.injEq] at done
      obtain ⟨rfl, rfl⟩ := done
      exact ⟨first, second, .single _, .single _, same,
        fun one two above _ _ => wired.reaches_num held above⟩
    · rw [if_neg same] at done
      cases done
  | succ fuel hypothesis =>
    rw [meet] at done
    by_cases same : first.block.previous = second.block.previous
    · rw [if_pos same, Option.some.injEq, Prod.mk.injEq] at done
      obtain ⟨rfl, rfl⟩ := done
      exact ⟨first, second, .single _, .single _, same,
        fun one two above _ _ => wired.reaches_num held above⟩
    · rw [if_neg same] at done
      obtain ⟨firstPrev, locked, further⟩ := Option.bind_eq_some_iff.mp done
      obtain ⟨secondPrev, lockedSecond, further⟩ := Option.bind_eq_some_iff.mp further
      obtain ⟨⟨firstRest, secondRest⟩, meets, equal⟩ := Option.map_eq_some_iff.mp further
      obtain ⟨rfl, rfl⟩ := Prod.mk.inj equal
      have height := wired.lock_num held locked
      have heightSecond := wired.lock_num heldSecond lockedSecond
      obtain ⟨firstLast, secondLast, branch, branchSecond, common, highest⟩ :=
        hypothesis (lock_some locked).1 (lock_some lockedSecond).1 (by omega) meets
      refine ⟨firstLast, secondLast, .step locked branch, .step lockedSecond branchSecond, common,
        fun one two above aboveTwo meet => ?_⟩
      -- two blocks with one previous block have one height
      have heights : hashing.num one.block = hashing.num two.block := by
        rw [Hashing.num, meet, Hashing.num]
      rcases Relation.ReflTransGen.cases_head above with rfl | ⟨below, down, rest⟩
      · have top := wired.reaches_eq heldSecond aboveTwo (by omega)
        exact absurd (top ▸ meet) same
      · obtain rfl := lock_rightUnique forkDb locked down
        rcases Relation.ReflTransGen.cases_head aboveTwo with rfl | ⟨belowTwo, downTwo, restTwo⟩
        · have bound := wired.reaches_num (lock_some locked).1 rest
          omega
        · obtain rfl := lock_rightUnique forkDb lockedSecond downTwo
          exact highest one two rest restTwo meet

theorem meet_runs [DecidableEq Id] (wired : Wired hashing forkDb) (held : first ∈ forkDb.alive)
    (heldSecond : second ∈ forkDb.alive)
    (level : hashing.num first.block = hashing.num second.block)
    (enough : hashing.num first.block ≤ fuel) {one two : ForkItem Id Tx H}
    (above : forkDb.Reaches first one) (aboveTwo : forkDb.Reaches second two)
    (common : one.block.previous = two.block.previous) :
    ∃ firstLower secondLower, meet forkDb fuel first second = some (firstLower, secondLower) := by
  induction fuel generalizing first second with
  | zero =>
    rw [Hashing.num] at enough
    omega
  | succ fuel hypothesis =>
    rw [meet]
    by_cases same : first.block.previous = second.block.previous
    · rw [if_pos same]
      exact ⟨_, _, rfl⟩
    · rw [if_neg same]
      have heights : hashing.num one.block = hashing.num two.block := by
        rw [Hashing.num, common, Hashing.num]
      rcases Relation.ReflTransGen.cases_head above with rfl | ⟨prev, locked, rest⟩
      · have top := wired.reaches_eq heldSecond aboveTwo (by omega)
        exact absurd (top ▸ common) same
      rcases Relation.ReflTransGen.cases_head aboveTwo with rfl | ⟨prevTwo, lockedTwo, restTwo⟩
      · have top := wired.reaches_eq held above (by omega)
        exact absurd (top ▸ common) same
      have height := wired.lock_num held locked
      have heightTwo := wired.lock_num heldSecond lockedTwo
      obtain ⟨firstLower, secondLower, ran⟩ := hypothesis (lock_some locked).1
        (lock_some lockedTwo).1 (by omega) (by omega) rest restTwo
      rw [locked, lockedTwo, Option.bind_some, Option.bind_some, ran]
      exact ⟨_, _, rfl⟩

end Loops

/-! ## The branches -/

/-- What the branches of two blocks should be. -/
structure Branches [DecidableEq Id] (hashing : Hashing Id Tx H) (forkDb : ForkDatabase Id Tx H)
    (firstTop secondTop : ForkItem Id Tx H) (first second : List (ForkItem Id Tx H)) : Prop where
  starts : first.head? = some firstTop ∧ second.head? = some secondTop
  linked : (first.IsChain fun upper lower => upper.block.previous = hashing.id lower.block) ∧
    second.IsChain fun upper lower => upper.block.previous = hashing.id lower.block
  common : ∃ firstLast secondLast, first.getLast? = some firstLast ∧
    second.getLast? = some secondLast ∧
    firstLast.block.previous = secondLast.block.previous ∧
    forkDb.Ancestor firstLast.block.previous firstTop ∧
    forkDb.Ancestor firstLast.block.previous secondTop ∧
    ∀ id, forkDb.Ancestor id firstTop → forkDb.Ancestor id secondTop →
      hashing.numFromId id ≤ hashing.numFromId firstLast.block.previous
  apart : (∃ one ∈ first, ∃ two ∈ second, one.block = two.block) →
    hashing.id firstTop.block = hashing.id secondTop.block ∨
      forkDb.Ancestor (hashing.id firstTop.block) secondTop ∨
      forkDb.Ancestor (hashing.id secondTop.block) firstTop

/-- The branches of two blocks meet within the cache. -/
def Meet (forkDb : ForkDatabase Id Tx H) (firstTop secondTop : ForkItem Id Tx H) : Prop :=
  ∃ one two, forkDb.Reaches firstTop one ∧ forkDb.Reaches secondTop two ∧
    one.block.previous = two.block.previous

/-- Two blocks whose branches meet have branches down to their most recent common ancestor. -/
theorem fetchBranchFrom_branches [DecidableEq Id] (hashing : Hashing Id Tx H)
    (forkDb : ForkDatabase Id Tx H) (first second : Id) (firstTop secondTop : ForkItem Id Tx H)
    (built : Built hashing forkDb)
    (foundFirst : forkDb.fetchBlock hashing first = some firstTop)
    (foundSecond : forkDb.fetchBlock hashing second = some secondTop)
    (meets : forkDb.Meet firstTop secondTop) :
    ∃ firstBranch secondBranch,
      forkDb.fetchBranchFrom hashing first second = some (firstBranch, secondBranch) ∧
      Branches hashing forkDb firstTop secondTop firstBranch secondBranch := by
  have wired := built.wired
  have held : firstTop ∈ forkDb.alive := mem_alive.mpr (.inl (fetchBlock_id foundFirst).2)
  have heldSecond : secondTop ∈ forkDb.alive := mem_alive.mpr (.inl (fetchBlock_id foundSecond).2)
  obtain ⟨one, two, above, aboveTwo, meet⟩ := meets
  have heights (one two : ForkItem Id Tx H) (meet : one.block.previous = two.block.previous) :
      hashing.num one.block = hashing.num two.block := by
    rw [Hashing.num, meet, Hashing.num]
  have within := wired.reaches_num held above
  have withinTwo := wired.reaches_num heldSecond aboveTwo
  have level := heights one two meet
  obtain ⟨firstUpper, firstItem, descends⟩ := descend_runs wired held (Nat.le_refl _) above
    (by omega : _ ≤ hashing.num secondTop.block)
  obtain ⟨goes, height⟩ := descend_branch wired held descends
  have down := (goes _ _ (.single firstItem)).reaches
  obtain ⟨secondUpper, secondItem, descendsTwo⟩ := descend_runs wired heldSecond (Nat.le_refl _)
    aboveTwo (by omega : _ ≤ hashing.num firstItem.block)
  obtain ⟨goesTwo, heightTwo⟩ := descend_branch wired heldSecond descendsTwo
  have downTwo := (goesTwo _ _ (.single secondItem)).reaches
  have alive := down.alive held
  have aliveTwo := downTwo.alive heldSecond
  -- whatever the branches have in common is below the items of equal height
  have lower (one two : ForkItem Id Tx H) (above : forkDb.Reaches firstTop one)
      (aboveTwo : forkDb.Reaches secondTop two) (meet : one.block.previous = two.block.previous) :
      forkDb.Reaches firstItem one ∧ forkDb.Reaches secondItem two := by
    have within := wired.reaches_num held above
    have withinTwo := wired.reaches_num heldSecond aboveTwo
    have level := heights one two meet
    exact ⟨wired.reaches_lower held down above (by omega),
      wired.reaches_lower heldSecond downTwo aboveTwo (by omega)⟩
  obtain ⟨below, belowTwo⟩ := lower one two above aboveTwo meet
  obtain ⟨firstLower, secondLower, ran⟩ := meet_runs wired alive aliveTwo (by omega)
    (Nat.le_refl _) below belowTwo meet
  obtain ⟨firstLast, secondLast, branch, branchTwo, common, highest⟩ :=
    meet_branches wired alive aliveTwo (by omega) ran
  have whole := goes _ _ branch
  have wholeTwo := goesTwo _ _ branchTwo
  have top (one two : ForkItem Id Tx H) (above : forkDb.Reaches firstTop one)
      (aboveTwo : forkDb.Reaches secondTop two) (meet : one.block.previous = two.block.previous) :
      hashing.num one.block ≤ hashing.num firstLast.block := by
    obtain ⟨below, belowTwo⟩ := lower one two above aboveTwo meet
    exact highest one two below belowTwo meet
  refine ⟨firstUpper ++ firstLower, secondUpper ++ secondLower, ?_, ⟨whole.head, wholeTwo.head⟩,
    ⟨whole.linked wired held, wholeTwo.linked wired heldSecond⟩,
    ⟨firstLast, secondLast, whole.last_eq, wholeTwo.last_eq, common, ⟨firstLast, whole.reaches, rfl⟩,
      ⟨secondLast, wholeTwo.reaches, common.symm⟩, ?_⟩, ?_⟩
  · simp only [fetchBranchFrom, foundFirst, foundSecond, descends, descendsTwo, ran,
      Option.bind_eq_bind, Option.bind_some]
    rfl
  · rintro id ⟨one, above, rfl⟩ ⟨two, aboveTwo, meet⟩
    have bound := top one two above aboveTwo meet.symm
    rw [Hashing.num, Hashing.num] at bound
    omega
  · rintro ⟨one, member, two, memberTwo, same⟩
    obtain ⟨above, onward⟩ := whole.between one member
    obtain ⟨aboveTwo, onwardTwo⟩ := wholeTwo.between two memberTwo
    -- a block of both branches is the last one of both
    have bound := top one two above aboveTwo (by rw [same])
    have equal := wired.reaches_eq (above.alive held) onward bound
    have level := heights firstLast secondLast common
    have equalTwo := wired.reaches_eq (aboveTwo.alive heldSecond) onwardTwo (by
      rw [← same, ← level]
      exact bound)
    rw [equal, equalTwo] at same
    rcases Relation.ReflTransGen.cases_tail whole.reaches with first | ⟨upper, down, locked⟩
    · rw [first] at same
      rcases Relation.ReflTransGen.cases_tail wholeTwo.reaches with second | ⟨upper, down, locked⟩
      · exact .inl (by rw [same, second])
      · refine .inr (.inl ⟨upper, down, ?_⟩)
        rw [same]
        exact (wired.lock_previous (Reaches.alive down heldSecond) locked).symm
    · rcases Relation.ReflTransGen.cases_tail wholeTwo.reaches with second |
        ⟨upperTwo, downTwo, lockedTwo⟩
      · refine .inr (.inr ⟨upper, down, ?_⟩)
        rw [← second, ← same]
        exact (wired.lock_previous (Reaches.alive down held) locked).symm
      · have named := wired.lock_previous (Reaches.alive down held) locked
        have namedTwo := wired.lock_previous (Reaches.alive downTwo heldSecond) lockedTwo
        have higher := top upper upperTwo down downTwo (by rw [← named, ← namedTwo, same])
        have height := wired.lock_num (Reaches.alive down held) locked
        omega

/-! ## A fork of two branches -/

/-- An item of a block whose id spells out its chain. -/
def Spelled.entry (serial : Nat) (prev : Option Nat) (witness : String)
    (below : List (Entry Unit Unit)) : ForkItem (List (Entry Unit Unit)) Unit Unit :=
  ⟨serial, Entry.block (witness, [], ()) below, prev⟩

/-- The blocks of two witnesses on top of one block. -/
def Spelled.forked : List (ForkItem (List (Entry Unit Unit)) Unit Unit) :=
  [Spelled.entry 0 none "root" [],
    Spelled.entry 1 (some 0) "alice" [("root", [], ())],
    Spelled.entry 2 (some 0) "bob" [("root", [], ())],
    Spelled.entry 3 (some 1) "alice" [("alice", [], ()), ("root", [], ())]]

/-- The branches of the two newest blocks go down to the block that they build on. -/
theorem fetchBranchFrom_branches_spelled : ∃ forkDb firstBranch secondBranch,
    fetchBranchFrom (Hashing.spelled Unit Unit) [("alice", [], ()), ("alice", [], ()), ("root", [], ())]
      [("bob", [], ()), ("root", [], ())] forkDb = some (firstBranch, secondBranch) ∧
    Branches (Hashing.spelled Unit Unit) forkDb
      (Spelled.entry 3 (some 1) "alice" [("alice", [], ()), ("root", [], ())])
      (Spelled.entry 2 (some 0) "bob" [("root", [], ())]) firstBranch secondBranch := by
  have built : Built (Hashing.spelled Unit Unit) {
      index := Spelled.forked
      head := some (Spelled.entry 3 (some 1) "alice" [("alice", [], ()), ("root", [], ())])
      maxSize := 1024
      nextSerial := 4
      pinned := [] } :=
    .pushed (.pushed (.pushed (.pushed .empty
      (by exact rfl : pushBlock _ (Entry.block ("root", [], ()) []) _ = .ok _))
      (by exact rfl : pushBlock _ (Entry.block ("alice", [], ()) [("root", [], ())]) _ = .ok _))
      (by exact rfl : pushBlock _ (Entry.block ("bob", [], ()) [("root", [], ())]) _ = .ok _))
      (by exact rfl : pushBlock _ (Entry.block ("alice", [], ())
        [("alice", [], ()), ("root", [], ())]) _ = .ok _)
  refine ⟨_, fetchBranchFrom_branches _ _ _ _ _ _ built rfl rfl ?_⟩
  exact ⟨Spelled.entry 1 (some 0) "alice" [("root", [], ())],
    Spelled.entry 2 (some 0) "bob" [("root", [], ())], .single rfl, .refl, rfl⟩

end ForkDatabase

end DeipChain.Chain
