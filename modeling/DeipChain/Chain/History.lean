import DeipChain.Chain.Block

/-!
# The states a chain of blocks passes through

A chain is the list of its blocks, newest first, each naming the one below it as
previous. Since the effect of a block on the objects is a function of the objects, a
chain determines the state after it: `stateAfter` replays it from genesis. The
properties of those states that the node relies on are proved here by one step law
and an induction over the chain: the head is the newest block, the last irreversible
block never lies above it and never moves back, and the buffer of recent ids holds
the ids of the chain.
-/
namespace DeipChain.Chain

open Snapshots Std

variable {Id Tx H R : Type}

/-- The id of the newest block. -/
def tip (hashing : Hashing Id Tx H) : List (Block Id Tx H) → Id
  | [] => hashing.null
  | block :: _ => hashing.id block

/-- Every block names the one below it as previous. -/
def IsChain (hashing : Hashing Id Tx H) : List (Block Id Tx H) → Prop
  | [] => True
  | block :: rest => block.previous = tip hashing rest ∧ IsChain hashing rest

/-- The block at a height of a chain, counted from 1. -/
def blockAt (chain : List (Block Id Tx H)) (height : Nat) : Option (Block Id Tx H) :=
  if height = 0 then none else chain.reverse[height - 1]?

section Chains

variable {hashing : Hashing Id Tx H}

theorem num_tip {chain : List (Block Id Tx H)} (linked : IsChain hashing chain) :
    hashing.numFromId (tip hashing chain) = chain.length := by
  induction chain with
  | nil => exact hashing.numFromId_null
  | cons block rest inductionHypothesis =>
    obtain ⟨named, below⟩ := linked
    rw [tip, hashing.numFromId_id, named, inductionHypothesis below, List.length_cons]

/-- The number of a block of a chain is its height. -/
theorem num_of_chain {block : Block Id Tx H} {rest : List (Block Id Tx H)}
    (linked : IsChain hashing (block :: rest)) : hashing.num block = rest.length + 1 := by
  rw [Hashing.num, linked.1, num_tip linked.2]

/-- The newest id determines the whole chain. -/
theorem isChain_unique {left right : List (Block Id Tx H)} (leftLinked : IsChain hashing left)
    (rightLinked : IsChain hashing right) (same : tip hashing left = tip hashing right) :
    left = right := by
  induction left generalizing right with
  | nil =>
    have empty : right.length = 0 := by
      rw [← num_tip rightLinked, ← same, num_tip leftLinked, List.length_nil]
    exact (List.eq_nil_of_length_eq_zero empty).symm
  | cons block rest inductionHypothesis =>
    cases right with
    | nil =>
      have equal := num_tip leftLinked
      rw [same, num_tip rightLinked] at equal
      simp at equal
    | cons other below =>
      have blocks : block = other := hashing.injective same
      subst blocks
      rw [inductionHypothesis leftLinked.2 rightLinked.2 (leftLinked.1.symm.trans rightLinked.1)]

theorem IsChain.drop {chain : List (Block Id Tx H)} (linked : IsChain hashing chain)
    (count : Nat) : IsChain hashing (chain.drop count) := by
  induction count generalizing chain with
  | zero => exact linked
  | succ count inductionHypothesis =>
    cases chain with
    | nil => trivial
    | cons block rest => exact inductionHypothesis linked.2

theorem blockAt_cons_below {block : Block Id Tx H} {rest : List (Block Id Tx H)} {height : Nat}
    (below : height ≤ rest.length) : blockAt (block :: rest) height = blockAt rest height := by
  unfold blockAt
  split
  · rfl
  · rw [List.reverse_cons, List.getElem?_append_left (by simp; omega)]

theorem blockAt_cons_top (block : Block Id Tx H) (rest : List (Block Id Tx H)) :
    blockAt (block :: rest) (rest.length + 1) = some block := by
  simp [blockAt]

theorem blockAt_append {above chain : List (Block Id Tx H)} {height : Nat}
    (below : height ≤ chain.length) : blockAt (above ++ chain) height = blockAt chain height := by
  induction above with
  | nil => rfl
  | cons block rest inductionHypothesis =>
    rw [List.cons_append, blockAt_cons_below (by simp; omega), inductionHypothesis]

/-- A block of a chain stands at the height of its number. -/
theorem blockAt_num {chain : List (Block Id Tx H)} (linked : IsChain hashing chain)
    {block : Block Id Tx H} (member : block ∈ chain) :
    blockAt chain (hashing.num block) = some block := by
  induction chain with
  | nil => cases member
  | cons first rest inductionHypothesis =>
    rcases List.mem_cons.mp member with rfl | inRest
    · rw [num_of_chain linked, blockAt_cons_top]
    · have found := inductionHypothesis linked.2 inRest
      have height : hashing.num block ≤ rest.length := by
        unfold blockAt at found
        split at found
        · cases found
        · have bound := (List.getElem?_eq_some_iff.mp found).1
          simp only [List.length_reverse] at bound
          omega
      rw [blockAt_cons_below height, found]

end Chains

section Laws

variable {processing : Processing Id Tx H R}

theorem eval_bodyStep (step : BodyStep Id R) (state : ChainState Id R) :
    (bodyStep step state).eval state =
      outcomeMap (ChainState.mk state.core) ((step state.core state.body).eval state.body) :=
  Script.eval_onto (ChainState.mk state.core) (step state.core state.body) state.body

/-- A program on the body keeps the core. -/
theorem bodyStep_keeps (step : BodyStep Id R) : Keeps ChainState.core (bodyStep step) := by
  intro state
  rw [eval_bodyStep]
  cases (step state.core state.body).eval state.body <;> rfl

theorem core_of_bodyStep {step : BodyStep Id R} {state reached : ChainState Id R}
    (done : (bodyStep step state).eval state = .ok () reached) : reached.core = state.core := by
  have kept := bodyStep_keeps step state
  rw [done] at kept
  exact kept

theorem eval_coreStep (change : Core Id → Except ChainError (Core Id)) (state : ChainState Id R) :
    (coreStep change state).eval state =
      match change state.core with
      | .ok core => .ok () { state with core := core }
      | .error thrown => .error thrown state := by
  unfold coreStep
  cases change state.core <;> rfl

theorem eval_coreStep_ok {change : Core Id → Except ChainError (Core Id)}
    {state reached : ChainState Id R} :
    (coreStep change state).eval state = .ok () reached ↔
      ∃ core, change state.core = .ok core ∧ reached = { state with core := core } := by
  rw [eval_coreStep]
  cases change state.core with
  | ok core => simp [eq_comm]
  | error thrown => simp

/-- A check of the core keeps it. -/
theorem checkStep_keeps (change : Core Id → Except ChainError (Core Id))
    (checks : ∀ core after, change core = .ok after → after = core) :
    Keeps ChainState.core (coreStep change : Step (ChainState Id R) ChainError) := by
  intro state
  rw [eval_coreStep]
  cases outcome : change state.core with
  | ok core => exact checks state.core core outcome
  | error thrown => rfl

variable {hashing : Hashing Id Tx H} {block : Block Id Tx H} {state reached : ChainState Id R}

/-- The core a block has when its last irreversible block is computed. -/
def signedCore (hashing : Hashing Id Tx H) (block : Block Id Tx H) (core : Core Id) : Core Id :=
  { core with
    headBlockNumber := hashing.num block
    headBlockId := hashing.id block
    lastConfirmedBlockNum :=
      core.lastConfirmedBlockNum.insert block.witness (hashing.num block) }

/-- What the head of a block has checked and written. -/
theorem headSteps_ok (done : evalAll (headSteps hashing processing block) state = .ok () reached) :
    state.core.lastIrreversibleBlockNum ≤ hashing.num block ∧
      hashing.num block - state.core.lastIrreversibleBlockNum < maxUndoHistory ∧
      ∃ num, irreversibleBlockNum (signedCore hashing block state.core)
          (processing.currentShuffledWitnesses reached.body) = some num ∧
        reached.core =
          { signedCore hashing block state.core with lastIrreversibleBlockNum := num } := by
  obtain ⟨headed, head, done⟩ := evalAll_cons_ok.mp done
  obtain ⟨signed, signing, done⟩ := evalAll_cons_ok.mp done
  obtain ⟨confirmed, confirm, done⟩ := evalAll_cons_ok.mp done
  obtain ⟨raised, raise, done⟩ := evalAll_cons_ok.mp done
  obtain ⟨headCore, headed, rfl⟩ := eval_coreStep_ok.mp head
  obtain ⟨confirmedCore, confirms, rfl⟩ := eval_coreStep_ok.mp confirm
  obtain ⟨raisedCore, raises, rfl⟩ := eval_coreStep_ok.mp raise
  have signedSame : signed.core = headCore := core_of_bodyStep signing
  simp only [evalAll, EStateM.Result.ok.injEq, true_and] at done
  subst done
  unfold updateHead at headed
  split at headed
  · rename_i bounds
    have headEq := (Except.ok.inj headed).symm
    have confirmedEq := (Except.ok.inj confirms).symm
    have coreEq : confirmedCore = signedCore hashing block state.core := by
      rw [confirmedEq, signedSame, headEq]
      rfl
    refine ⟨bounds.1, bounds.2, ?_⟩
    unfold raiseIrreversible at raises
    dsimp only at raises
    split at raises
    · rename_i num computed
      exact ⟨num, coreEq ▸ computed, (Except.ok.inj raises).symm.trans (coreEq ▸ rfl)⟩
    · cases raises
  · cases headed

/-- The steps after the commit write only the buffer of recent ids, even when one of
them throws. -/
theorem finished_core (hashing : Hashing Id Tx H) (processing : Processing Id Tx H R)
    (block : Block Id Tx H) (state : ChainState Id R) :
    (left (finished hashing processing block state)).core =
      { state.core with
        blockSummary := state.core.blockSummary.insert (hashing.num block % summarySize)
          (hashing.id block) } := by
  unfold finished finishSteps
  rw [evalAll, eval_coreStep]
  simp only [createBlockSummary, andThen]
  refine evalAll_keeps (fun step member => ?_) _
  simp only [List.mem_cons, List.not_mem_nil, or_false] at member
  rcases member with rfl | rfl | rfl | rfl | rfl | rfl | rfl | rfl | rfl | rfl | rfl | rfl | rfl | rfl
    <;> exact bodyStep_keeps _

variable [DecidableEq Id]

theorem openingSteps_keep (processing : Processing Id Tx H R) (block : Block Id Tx H) :
    ∀ step ∈ openingSteps processing block, Keeps ChainState.core step := by
  intro step member
  simp only [openingSteps, List.mem_cons, List.mem_append, List.mem_map, List.not_mem_nil,
    or_false] at member
  rcases member with rfl | rfl | rfl | ⟨transaction, _, rfl⟩ | rfl
  · refine checkStep_keeps _ (fun core after outcome => ?_)
    split at outcome
    · exact (Except.ok.inj outcome).symm
    · cases outcome
  · refine checkStep_keeps _ (fun core after outcome => ?_)
    unfold checkPrevious at outcome
    split at outcome
    · exact (Except.ok.inj outcome).symm
    · cases outcome
  · exact bodyStep_keeps _
  · exact bodyStep_keeps _
  · exact bodyStep_keeps _

/-- A block that passes the opening names the head as previous. -/
theorem openingSteps_previous
    (done : evalAll (openingSteps processing block) state = .ok () reached) :
    state.core.headBlockId = block.previous := by
  obtain ⟨first, merkle, later⟩ := evalAll_cons_ok.mp done
  obtain ⟨second, previous, _⟩ := evalAll_cons_ok.mp later
  obtain ⟨core, matched, rfl⟩ := eval_coreStep_ok.mp merkle
  obtain ⟨after, named, rfl⟩ := eval_coreStep_ok.mp previous
  have same : core = state.core := by
    split at matched
    · exact (Except.ok.inj matched).symm
    · cases matched
  rw [← same]
  by_contra different
  simp [checkPrevious, different] at named

/-- What a block has checked and written when it commits. -/
theorem prepared_ok (done : prepared hashing processing block state = .ok () reached) :
    state.core.headBlockId = block.previous ∧
      state.core.lastIrreversibleBlockNum ≤ hashing.num block ∧
      hashing.num block - state.core.lastIrreversibleBlockNum < maxUndoHistory ∧
      ∃ num, irreversibleBlockNum (signedCore hashing block state.core)
          (processing.currentShuffledWitnesses reached.body) = some num ∧
        reached.core =
          { signedCore hashing block state.core with lastIrreversibleBlockNum := num } := by
  obtain ⟨middle, opening, heading⟩ := evalAll_append_ok.mp done
  have kept := evalAll_keeps (openingSteps_keep processing block) state
  rw [opening, left] at kept
  obtain ⟨lower, upper, raised⟩ := headSteps_ok heading
  rw [kept] at lower upper raised
  exact ⟨openingSteps_previous opening, lower, upper, raised⟩

/-- The core after a block. -/
theorem applied_ok (done : applied hashing processing block state = .ok () reached) :
    ∃ middle, prepared hashing processing block state = .ok () middle ∧
      finished hashing processing block middle = .ok () reached ∧
      reached.core = { middle.core with
        blockSummary := middle.core.blockSummary.insert (hashing.num block % summarySize)
          (hashing.id block) } := by
  obtain ⟨middle, prepares, finishes⟩ := andThen_ok.mp done
  have written := finished_core hashing processing block middle
  rw [finishes, left] at written
  exact ⟨middle, prepares, finishes, written⟩

end Laws

/-- The core right after genesis. -/
def Core.genesis (hashing : Hashing Id Tx H) : Core Id :=
  { headBlockNumber := 0, headBlockId := hashing.null, lastIrreversibleBlockNum := 0,
    lastConfirmedBlockNum := ∅, blockSummary := ∅ }

section Reached

variable {hashing : Hashing Id Tx H}

/-- What the core says about the chain it was reached by. -/
structure Reached (hashing : Hashing Id Tx H) (chain : List (Block Id Tx H)) (core : Core Id) :
    Prop where
  linked : IsChain hashing chain
  number : core.headBlockNumber = chain.length
  head : core.headBlockId = tip hashing chain
  irreversible : core.lastIrreversibleBlockNum ≤ chain.length
  confirmed : ∀ witness : String, core.lastConfirmedBlockNum[witness]?.getD 0 ≤ chain.length
  early : chain.length < startMinerVotingBlock →
    core.lastIrreversibleBlockNum = chain.length - maxWitnesses
  window : chain.length - core.lastIrreversibleBlockNum < maxUndoHistory
  recent : ∀ (height : Nat) (block : Block Id Tx H), blockAt chain height = some block →
    chain.length < height + summarySize →
      core.blockSummary[height % summarySize]? = some (hashing.id block)

theorem reached_genesis (hashing : Hashing Id Tx H) : Reached hashing [] (Core.genesis hashing) where
  linked := trivial
  number := rfl
  head := rfl
  irreversible := Nat.le_refl _
  confirmed witness := by simp [Core.genesis]
  early _ := rfl
  window := by simp [Core.genesis, maxUndoHistory]
  recent height block found := by simp [blockAt] at found

/-- The new last irreversible block lies between the old one and the head. -/
theorem irreversible_bounds {chain : List (Block Id Tx H)} {core : Core Id}
    {block : Block Id Tx H} {scheduled : List String} {num : Nat}
    (reached : Reached hashing chain core) (named : block.previous = core.headBlockId)
    (computed : irreversibleBlockNum (signedCore hashing block core) scheduled = some num) :
    core.lastIrreversibleBlockNum ≤ num ∧ num ≤ chain.length + 1 ∧
      (chain.length + 1 < startMinerVotingBlock → num = chain.length + 1 - maxWitnesses) := by
  have height : hashing.num block = chain.length + 1 := by
    rw [Hashing.num, named, reached.head, num_tip reached.linked]
  have below := reached.irreversible
  unfold irreversibleBlockNum at computed
  simp only [signedCore, height] at computed
  split at computed
  · rename_i voting
    have old := reached.early (by omega)
    simp only [Option.some.injEq] at computed
    split at computed <;> omega
  · rename_i voting
    obtain ⟨confirmed, found, rfl⟩ := Option.map_eq_some_iff.mp computed
    have member := List.mem_of_getElem? found
    rw [List.mem_insertionSort, List.mem_map] at member
    obtain ⟨witness, _, rfl⟩ := member
    have bound : (core.lastConfirmedBlockNum.insert block.witness (chain.length + 1))[witness]?.getD 0
        ≤ chain.length + 1 := by
      rw [OrderedMap.lookup_insert]
      split
      · simp
      · exact Nat.le_succ_of_le (reached.confirmed witness)
    exact ⟨Nat.le_max_left _ _, Nat.max_le.mpr ⟨by omega, bound⟩, fun early => absurd early voting⟩

end Reached

section States

variable [DecidableEq Id] (hashing : Hashing Id Tx H) (processing : Processing Id Tx H R)
  (genesis : R)

/-- The state after a chain, if every block of it applies. -/
def stateAfter : List (Block Id Tx H) → Option (ChainState Id R)
  | [] => some { core := Core.genesis hashing, body := genesis }
  | block :: rest =>
    match stateAfter rest with
    | none => none
    | some state =>
      match applied hashing processing block state with
      | .ok _ reached => some reached
      | .error _ _ => none

variable {hashing processing genesis}

theorem stateAfter_cons {block : Block Id Tx H} {rest : List (Block Id Tx H)}
    {reached : ChainState Id R} :
    stateAfter hashing processing genesis (block :: rest) = some reached ↔
      ∃ state, stateAfter hashing processing genesis rest = some state ∧
        applied hashing processing block state = .ok () reached := by
  cases before : stateAfter hashing processing genesis rest with
  | none => simp [stateAfter, before]
  | some state =>
    cases outcome : applied hashing processing block state with
    | ok _ after => simp [stateAfter, before, outcome]
    | error thrown after => simp [stateAfter, before, outcome]

/-- One block further along the chain. -/
theorem Reached.step {chain : List (Block Id Tx H)} {block : Block Id Tx H}
    {state after : ChainState Id R} (reached : Reached hashing chain state.core)
    (done : applied hashing processing block state = .ok () after) :
    Reached hashing (block :: chain) after.core ∧
      state.core.lastIrreversibleBlockNum ≤ after.core.lastIrreversibleBlockNum := by
  obtain ⟨middle, prepares, _, written⟩ := applied_ok done
  obtain ⟨named, _, window, num, computed, raised⟩ := prepared_ok prepares
  obtain ⟨monotone, below, early⟩ := irreversible_bounds reached named.symm computed
  have linked : IsChain hashing (block :: chain) :=
    ⟨by rw [← named, reached.head], reached.linked⟩
  have height := num_of_chain linked
  rw [raised] at written
  rw [written]
  refine ⟨⟨linked, height, rfl, below, fun witness => ?_, early, ?_,
    fun at_ other found near => ?_⟩, monotone⟩
  · simp only [signedCore, OrderedMap.lookup_insert, List.length_cons]
    split
    · simp [height]
    · exact Nat.le_succ_of_le (reached.confirmed witness)
  · rw [height] at window
    simp only [List.length_cons]
    omega
  · simp only [signedCore, OrderedMap.lookup_insert, height, List.length_cons] at near ⊢
    by_cases top : at_ = chain.length + 1
    · subst top
      rw [blockAt_cons_top] at found
      rw [if_pos rfl, Option.some.inj found]
    · have older : at_ ≤ chain.length := by
        unfold blockAt at found
        split at found
        · cases found
        · have bound := (List.getElem?_eq_some_iff.mp found).1
          simp only [List.length_reverse, List.length_cons] at bound
          omega
      have positive : 0 < at_ := by
        rcases Nat.eq_zero_or_pos at_ with rfl | positive
        · simp [blockAt] at found
        · exact positive
      rw [blockAt_cons_below older] at found
      have apart : ¬ (chain.length + 1) % summarySize = at_ % summarySize := by
        unfold summarySize at near ⊢
        omega
      rw [if_neg apart]
      exact reached.recent at_ other found (by omega)

/-- Every state of a chain is as its blocks say. -/
theorem stateAfter_reached {chain : List (Block Id Tx H)} {state : ChainState Id R}
    (replayed : stateAfter hashing processing genesis chain = some state) :
    Reached hashing chain state.core := by
  induction chain generalizing state with
  | nil =>
    simp only [stateAfter, Option.some.injEq] at replayed
    subst replayed
    exact reached_genesis hashing
  | cons block rest inductionHypothesis =>
    obtain ⟨before, replayedBefore, done⟩ := stateAfter_cons.mp replayed
    exact ((inductionHypothesis replayedBefore).step done).1

/-- Going back along the chain never raises the last irreversible block. -/
theorem stateAfter_irreversible {chain : List (Block Id Tx H)} {state below : ChainState Id R}
    {count : Nat} (replayed : stateAfter hashing processing genesis chain = some state)
    (replayedBelow : stateAfter hashing processing genesis (chain.drop count) = some below) :
    below.core.lastIrreversibleBlockNum ≤ state.core.lastIrreversibleBlockNum := by
  induction count generalizing chain state with
  | zero =>
    rw [List.drop_zero, replayed] at replayedBelow
    cases replayedBelow
    exact Nat.le_refl _
  | succ count inductionHypothesis =>
    cases chain with
    | nil =>
      rw [List.drop_nil, replayed] at replayedBelow
      cases replayedBelow
      exact Nat.le_refl _
    | cons block rest =>
      obtain ⟨before, replayedBefore, done⟩ := stateAfter_cons.mp replayed
      exact Nat.le_trans (inductionHypothesis replayedBefore replayedBelow)
        ((stateAfter_reached replayedBefore).step done).2

end States

end DeipChain.Chain
