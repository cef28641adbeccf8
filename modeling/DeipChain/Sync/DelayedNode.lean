import DeipChain.Sync.CatchUp

/-!
# A delayed node

The delayed node asks a trusted one for its last irreversible block and fetches the blocks up to
it one by one. Between two questions the trusted node goes on. As long as it takes the blocks of
its own chain, it serves the block of that chain at every height that is irreversible, and the
delayed node takes all of them.
-/
namespace DeipChain.Chain

open Snapshots

variable {Id Tx H R : Type} {hashing : Hashing Id Tx H}

namespace Database

variable [DecidableEq Id] {processing : Processing Id Tx H R} {genesis : R}
  {chain : List (Block Id Tx H)} {committed num : Nat} {block : Block Id Tx H}
  {database : Database hashing R}

/-! ## The trusted node -/

/-- What a straight push does: nothing, the block becomes a cached one of another branch, or it is
applied on top of the chain. -/
theorem straight_cases (straightly : straight processing block database = true) :
    left (pushUnprotected processing block database) = database ∨
      (∃ forkDb newHead, database.forkDb.pushBlock hashing block = .ok forkDb ∧
        forkDb.head = some newHead ∧ hashing.num newHead.block ≤ database.core.headBlockNumber ∧
        left (pushUnprotected processing block database) =
          { database with forkDb := forkDb.pin [newHead] }) ∨
      ∃ forkDb newHead reached, database.forkDb.pushBlock hashing block = .ok forkDb ∧
        forkDb.head = some newHead ∧ newHead.block.previous = database.core.headBlockId ∧
        tryBlock processing block { database with forkDb := forkDb.pin [newHead] } =
          .ok () reached ∧
        left (pushUnprotected processing block database) = reached := by
  unfold straight at straightly
  cases accepts : database.forkDb.pushBlock hashing block with
  | error thrown =>
    left
    simp only [pushUnprotected, accepts, left]
  | ok forkDb =>
    obtain ⟨newHead, top⟩ := ForkDatabase.pushBlock_head accepts
    simp only [accepts, Bool.and_eq_true, Bool.not_eq_true'] at straightly
    obtain ⟨plain, returns⟩ := straightly
    simp only [attemptsSwitch, accepts, top, decide_eq_false_iff_not] at plain
    right
    simp only [pushUnprotected, accepts, top] at returns ⊢
    split
    · rename_i apart
      have lower : ¬ hashing.num newHead.block > database.core.headBlockNumber :=
        fun above => plain ⟨apart, above⟩
      rw [if_neg lower]
      exact .inl ⟨forkDb, newHead, rfl, top, by omega, rfl⟩
    · rename_i extending
      rw [if_neg extending] at returns
      right
      cases tried : tryBlock processing block { database with forkDb := forkDb.pin [newHead] } with
      | error thrown stuck =>
        rw [tried] at returns
        cases returns
      | ok _ reached =>
        exact ⟨forkDb, newHead, reached, rfl, top, not_not.mp extending, tried, rfl⟩

/-- The fork database holds no block below the one before the last irreversible one. -/
def Trimmed (database : Database hashing R) : Prop :=
  ∀ item ∈ database.forkDb.index, database.core.lastIrreversibleBlockNum ≤ hashing.num item.block + 1

theorem pushUnprotected_trimmed (together : Together processing genesis chain database)
    (trimmed : Trimmed database) (straightly : straight processing block database = true) :
    Trimmed (left (pushUnprotected processing block database)) := by
  have reachedCore := stateAfter_reached together.replayed
  have number : database.core.headBlockNumber = chain.length := reachedCore.number
  rcases straight_cases straightly with same | ⟨forkDb, newHead, accepts, top, lower, same⟩ |
    ⟨forkDb, newHead, reached, accepts, top, named, tried, same⟩
  · rw [same]
    exact trimmed
  · rw [same]
    intro item member
    cases chain with
    | nil =>
      rw [number, List.length_nil, Hashing.num] at lower
      omega
    | cons first rest =>
      obtain ⟨head, _, before, sameHead⟩ := together.strung.top first rest rfl
      have recent := ForkDatabase.pushBlock_recent before accepts
      have window := together.windowed (by simp)
      have height := num_of_chain together.strung.linked
      obtain ⟨pointer, rfl, _⟩ := ForkDatabase.pushBlock_inserts accepts
      rw [sameHead, height] at recent
      rw [List.length_cons] at window
      rcases ForkDatabase.insertItem_mem.mp member with old | ⟨rfl, _⟩
      · exact trimmed item old
      · change database.core.lastIrreversibleBlockNum ≤ hashing.num block + 1
        omega
  · rw [same]
    obtain ⟨state, prepares, finishes, irreversible, _, trims⟩ := tryBlock_ok tried
    obtain ⟨_, _, _, num, _, raised⟩ := prepared_ok prepares
    obtain ⟨onTop, _⟩ := together.strung.extended accepts top reachedCore.irreversible
      (named.trans reachedCore.head)
    have headed : state.core.headBlockNumber = hashing.num newHead.block := by
      rw [raised, onTop]
      rfl
    have whole : applied hashing processing block database.store.current =
        .ok () reached.store.current := andThen_ok.mpr ⟨state, prepares, finishes⟩
    have next := (reachedCore.step whole).1
    have bound : reached.core.lastIrreversibleBlockNum ≤ reached.core.headBlockNumber :=
      next.irreversible.trans (Nat.le_of_eq next.number.symm)
    have height : reached.core.headBlockNumber = hashing.num newHead.block := by
      rw [onTop, num_of_chain next.linked]
      exact next.number
    intro item member
    rw [trims] at member
    have pinnedTop : (forkDb.pin [newHead]).head = some newHead := top
    simp only [ForkDatabase.setMaxSize, pinnedTop, List.mem_filter, decide_eq_true_eq] at member
    omega

theorem pushUnprotected_calm (resting : Resting processing genesis chain committed database)
    (quiet : calm hashing processing genesis chain = true)
    (smoothly : smooth processing block database = true)
    (straightly : straight processing block database = true) :
    ∃ above, stateAfter hashing processing genesis (above ++ chain) =
        some (left (pushUnprotected processing block database)).store.current ∧
      calm hashing processing genesis (above ++ chain) = true ∧
      database.core.lastIrreversibleBlockNum ≤
        (left (pushUnprotected processing block database)).core.lastIrreversibleBlockNum := by
  have replayed := resting.anchored.tracked.lineage.replayed
  rcases straight_cases straightly with same | ⟨forkDb, newHead, _, _, _, same⟩ |
    ⟨forkDb, newHead, reached, accepts, top, named, tried, same⟩
  · rw [same]
    exact ⟨[], replayed, quiet, Nat.le_refl _⟩
  · rw [same]
    exact ⟨[], replayed, quiet, Nat.le_refl _⟩
  · rw [same]
    obtain ⟨state, prepares, finishes, _⟩ := tryBlock_ok tried
    have whole : applied hashing processing block database.store.current =
        .ok () reached.store.current := andThen_ok.mpr ⟨state, prepares, finishes⟩
    have next := stateAfter_cons.mpr ⟨_, replayed, whole⟩
    refine ⟨[block], next, ?_, ((stateAfter_reached replayed).step whole).2⟩
    have revision := resting.anchored.tracked.revision
    dsimp only at prepares
    simp only [smooth, accepts, top, named, ne_eq, not_true_eq_false, if_false, unsquashed, prepares,
      Bool.and_eq_true, decide_eq_true_eq] at smoothly
    rw [List.singleton_append, calm, Bool.and_eq_true]
    refine ⟨quiet, ?_⟩
    simp only [replayed, prepares, decide_eq_true_eq]
    exact fun above => smoothly.2 (by omega)

/-- A node whose blocks have all gone on top of its chain. -/
structure Serving (processing : Processing Id Tx H R) (genesis : R) (chain : List (Block Id Tx H))
    (committed : Nat) (database : Database hashing R) : Prop where
  inStep : InStep processing genesis chain committed database
  trimmed : Trimmed database
  quiet : calm hashing processing genesis chain = true

theorem serving_genesis (processing : Processing Id Tx H R) (genesis : R) :
    Serving processing genesis [] 0 (Database.genesis hashing genesis) where
  inStep := inStep_genesis processing genesis
  trimmed item member := by cases member
  quiet := rfl

/-- A call of a straight and smooth run leaves the node on a chain that goes on from its own. -/
theorem Serving.afterCall {call : Call Id Tx H} {rest : List (Call Id Tx H)}
    (serving : Serving processing genesis chain committed database)
    (smoothly : smoothRun processing (call :: rest) database = true)
    (straightly : straightRun processing (call :: rest) database = true) :
    ∃ above raised, Serving processing genesis (above ++ chain) raised
        (afterCall processing call database) ∧
      database.core.lastIrreversibleBlockNum ≤
        (Database.afterCall processing call database).core.lastIrreversibleBlockNum ∧
      smoothRun processing rest (Database.afterCall processing call database) = true ∧
      straightRun processing rest (Database.afterCall processing call database) = true := by
  obtain ⟨inStep, trimmed, quiet⟩ := serving
  cases call with
  | pushTransaction transaction =>
    obtain ⟨raised, next, _⟩ := inStep.pushTransaction transaction
    have kept : (Database.afterCall processing (.pushTransaction transaction) database).core =
        database.core := pushPending_core transaction database
    have forkDb := (@pushPending_frame _ _ _ _ hashing processing transaction database).2
    refine ⟨[], raised, ⟨next, ?_, quiet⟩, by rw [kept], smoothly, straightly⟩
    rw [Trimmed, kept]
    exact fun item member => trimmed item (forkDb ▸ member)
  | pushBlock block =>
    obtain ⟨middle, raised, quiescent, _, _, smoothLater⟩ :=
      afterCall_quiescent inStep.quiescent smoothly
    obtain ⟨again, aligned, straightLater⟩ := afterCall_aligned inStep.aligned straightly
    have smoothNow := (Bool.and_eq_true_iff.mp smoothly).1
    have straightNow := (Bool.and_eq_true_iff.mp straightly).1
    obtain ⟨above, replayed, calmer, higher⟩ :=
      pushUnprotected_calm inStep.quiescent.resting quiet smoothNow straightNow
    have tidy := pushUnprotected_trimmed inStep.aligned.together
      (by
        rw [Trimmed, ← inStep.aligned.core, (clearPending_frame database).2]
        exact trimmed) straightNow
    have idle := @pushUnprotected_idle _ _ _ _ _ _ processing database.clearPending block
      (clearPending_idle database)
    obtain ⟨settled, _⟩ := @finishPush_settled _ _ _ _ _ processing _ database.pendingTx idle
    have finish : Database.afterCall processing (.pushBlock block) database =
        finishPush processing database.pendingTx
          (left (pushUnprotected processing block database.clearPending)) :=
      left_pushBlock processing block database
    have core : (Database.afterCall processing (.pushBlock block) database).core =
        (left (pushUnprotected processing block database.clearPending)).core := by
      rw [finish, finishPush_core]
    have whole : AppliedChain processing genesis (above ++ chain)
        (Database.afterCall processing (.pushBlock block) database) := by
      rw [AppliedChain, finish, settled]
      exact replayed
    obtain rfl := whole.unique quiescent.resting.anchored.tracked.lineage.replayed
    obtain rfl := whole.unique aligned.together.replayed
    refine ⟨above, raised, ⟨⟨quiescent, aligned⟩, ?_, calmer⟩, ?_, smoothLater, straightLater⟩
    · intro item member
      rw [core]
      rw [finish, finishPush_forkDb] at member
      exact tidy item member
    · rw [core]
      rw [← inStep.aligned.core] at higher
      exact higher

/-- The block served at an irreversible height is the one of the chain. -/
theorem Serving.fetchBlockByNumber (serving : Serving processing genesis chain committed database)
    (positive : 0 < num) (irreversible : num ≤ database.core.lastIrreversibleBlockNum) :
    ∃ block, database.fetchBlockByNumber num = some block ∧ blockAt chain num = some block := by
  have quiescent := serving.inStep.quiescent
  have strung := serving.inStep.aligned.together.strung
  rw [(clearPending_frame database).2, ← serving.inStep.aligned.core] at strung
  have within := quiescent.irreversible_le
  have bound := quiescent.reached.irreversible
  obtain ⟨block, found⟩ := blockAt_of_le positive (irreversible.trans bound)
  refine ⟨block, ?_, found⟩
  have number := num_of_blockAt quiescent.linked found
  rw [Database.fetchBlockByNumber]
  split
  · rename_i item single
    have only : item ∈ database.forkDb.fetchBlockByNumber hashing num := by
      rw [single]
      exact List.mem_singleton_self _
    rw [ForkDatabase.fetchBlockByNumber, List.mem_filter, decide_eq_true_eq] at only
    -- a block of the height is cached only where that of the chain is
    have window := serving.trimmed item only.1
    obtain ⟨other, indexed, rfl⟩ := strung.high block (mem_of_blockAt found) (by omega)
    have present : other ∈ database.forkDb.fetchBlockByNumber hashing num := by
      rw [ForkDatabase.fetchBlockByNumber, List.mem_filter]
      exact ⟨indexed, decide_eq_true number⟩
    rw [single, List.mem_singleton] at present
    rw [present]
  · have logged := quiescent.logged
    have inLog : num - 1 < database.blockLog.blocks.length := by omega
    have read := List.getElem?_eq_getElem inLog
    have same := blockAt_of_faithful quiescent.linked (fun _ logged => quiescent.faithful logged) read
    rw [Nat.sub_add_cancel positive, found] at same
    rw [BlockLog.readBlockByNum, if_neg (by omega), read, ← Option.some.inj same]

end Database

/-! ## The delayed node -/

/-- What ends a pass of the delayed node: the trusted one does not have a block that it claims to
have, or the block is refused. -/
inductive DelayedError where
  | missingBlock
  | refused (thrown : ChainError)

/-- The two nodes, with the last irreversible block that the pass going on has been told of. -/
structure DelayedNodes (hashing : Hashing Id Tx H) (R : Type) where
  trusted : Database hashing R
  delayed : Database hashing R
  remoteDpo : Option Nat

/-- What happens on the two nodes. -/
inductive DelayedEvent (Id Tx H : Type) where
  | trusted (call : Database.Call Id Tx H)
  | transaction (transaction : Tx)
  | turn

namespace DelayedNodes

/-- Two nodes on new data directories. -/
def genesis (hashing : Hashing Id Tx H) (body : R) : DelayedNodes hashing R :=
  ⟨Database.genesis hashing body, Database.genesis hashing body, none⟩

variable [DecidableEq Id] (processing : Processing Id Tx H R)

/-- One turn of the loops of `sync_with_trusted_node`: the question that starts a pass, a block of
the pass, or its end. -/
def syncWithTrustedNode (nodes : DelayedNodes hashing R) :
    Snapshots.Outcome DelayedError (DelayedNodes hashing R) :=
  match nodes.remoteDpo with
  | none =>
    let irreversible := nodes.trusted.core.lastIrreversibleBlockNum
    .ok () (if irreversible ≤ nodes.delayed.core.headBlockNumber then nodes
      else { nodes with remoteDpo := some irreversible })
  | some irreversible =>
    if irreversible > nodes.delayed.core.headBlockNumber then
      match nodes.trusted.fetchBlockByNumber (nodes.delayed.core.headBlockNumber + 1) with
      | none => .error .missingBlock { nodes with remoteDpo := none }
      | some block =>
        match Database.pushBlock processing block nodes.delayed with
        | .ok _ reached => .ok () { nodes with delayed := reached }
        | .error thrown reached =>
          .error (.refused thrown) { nodes with delayed := reached, remoteDpo := none }
    else .ok () { nodes with remoteDpo := none }

/-- The nodes after an event. -/
def afterEvent (nodes : DelayedNodes hashing R) : DelayedEvent Id Tx H → DelayedNodes hashing R
  | .trusted call => { nodes with trusted := Database.afterCall processing call nodes.trusted }
  | .transaction transaction =>
    { nodes with delayed := left (Database.pushPending processing transaction nodes.delayed) }
  | .turn => left (syncWithTrustedNode processing nodes)

/-- The nodes after a sequence of events. -/
def afterEvents (events : List (DelayedEvent Id Tx H)) (nodes : DelayedNodes hashing R) :
    DelayedNodes hashing R :=
  events.foldl (afterEvent processing) nodes

/-- No pass ends with an exception. -/
def Unfailing : List (DelayedEvent Id Tx H) → DelayedNodes hashing R → Prop
  | [], _ => True
  | event :: rest, nodes =>
    (event = .turn → ∃ reached, syncWithTrustedNode processing nodes = .ok () reached) ∧
      Unfailing rest (afterEvent processing nodes event)

/-- The calls on the trusted node. -/
def trustedCalls : List (DelayedEvent Id Tx H) → List (Database.Call Id Tx H)
  | [] => []
  | .trusted call :: rest => call :: trustedCalls rest
  | .transaction _ :: rest => trustedCalls rest
  | .turn :: rest => trustedCalls rest

/-- The delayed node is on the irreversible part of the trusted one's chain. -/
structure Behind (genesis : R) (above below : List (Block Id Tx H))
    (nodes : DelayedNodes hashing R) : Prop where
  serving : ∃ committed, Database.Serving processing genesis (above ++ below) committed nodes.trusted
  inStep : ∃ committed, Database.InStep processing genesis below committed nodes.delayed
  low : below.length ≤ nodes.trusted.core.lastIrreversibleBlockNum
  told : ∀ irreversible, nodes.remoteDpo = some irreversible →
    irreversible ≤ nodes.trusted.core.lastIrreversibleBlockNum

variable {processing} {genesis : R} {above below : List (Block Id Tx H)}
  {nodes : DelayedNodes hashing R}

/-- A bound on the turns that bring the delayed node level: three for each missing block, and
those that end a pass and start the next. -/
def debt (nodes : DelayedNodes hashing R) : Nat :=
  let head := nodes.delayed.core.headBlockNumber
  3 * (nodes.trusted.core.lastIrreversibleBlockNum - head) +
    match nodes.remoteDpo with
    | none => 1
    | some irreversible => if irreversible > head then 0 else 2

/-- A turn returns, and it brings the delayed node nearer unless it is level. -/
theorem Behind.turn (behind : Behind processing genesis above below nodes) :
    ∃ reached, syncWithTrustedNode processing nodes = .ok () reached ∧
      reached.trusted = nodes.trusted ∧ ∃ upper lower,
        Behind processing genesis upper lower reached ∧
          (nodes.trusted.core.lastIrreversibleBlockNum = below.length ∨
            reached.debt < nodes.debt) := by
  obtain ⟨⟨committed, serving⟩, ⟨delayedCommitted, inStep⟩, low, told⟩ := behind
  have head : nodes.delayed.core.headBlockNumber = below.length := inStep.quiescent.number
  rw [syncWithTrustedNode, debt, head]
  cases remote : nodes.remoteDpo with
  | none =>
    dsimp only
    by_cases level : nodes.trusted.core.lastIrreversibleBlockNum ≤ below.length
    · rw [if_pos level]
      exact ⟨nodes, rfl, rfl, above, below,
        ⟨⟨committed, serving⟩, ⟨delayedCommitted, inStep⟩, low, told⟩, .inl (by omega)⟩
    · rw [if_neg level]
      refine ⟨_, rfl, rfl, above, below,
        ⟨⟨committed, serving⟩, ⟨delayedCommitted, inStep⟩, low, ?_⟩, .inr ?_⟩
      · intro irreversible same
        exact Nat.le_of_eq (Option.some.inj same).symm
      · simp only [debt, head]
        rw [if_pos (by omega)]
        exact Nat.lt_succ_self _
  | some irreversible =>
    dsimp only
    have bound := told irreversible remote
    by_cases missing : irreversible > below.length
    · rw [if_pos missing]
      obtain ⟨block, served, found⟩ := serving.fetchBlockByNumber (Nat.succ_pos below.length)
        (by omega)
      rw [served]
      -- the block above the delayed node's chain is the lowest of the rest
      have next : ∃ upper, above = upper ++ [block] := by
        rw [blockAt, if_neg (by omega), Nat.succ_sub_one, List.reverse_append,
          List.getElem?_append_right (by simp), List.length_reverse, Nat.sub_self] at found
        obtain ⟨lowest, rest, reversed⟩ : ∃ lowest rest, above.reverse = lowest :: rest := by
          cases reversed : above.reverse with
          | nil =>
            rw [reversed] at found
            cases found
          | cons lowest rest => exact ⟨lowest, rest, rfl⟩
        rw [reversed, List.getElem?_cons_zero, Option.some.injEq] at found
        exact ⟨rest.reverse, by rw [← found, ← List.reverse_cons, ← reversed, List.reverse_reverse]⟩
      obtain ⟨upper, rfl⟩ := next
      have whole := serving.inStep.aligned.together.replayed
      have quiet := serving.quiet
      have cut : upper ++ [block] ++ below = upper ++ block :: below := by simp
      rw [cut] at whole quiet
      obtain ⟨after, applies⟩ := Database.stateAfter_append whole
      obtain ⟨reached, raised, accepted, further, _⟩ :=
        inStep.pushBlock applies (Database.calm_append quiet)
      have headNext : reached.core.headBlockNumber = below.length + 1 := further.quiescent.number
      dsimp only
      rw [accepted]
      refine ⟨_, rfl, rfl, upper, block :: below, ⟨⟨committed, ?_⟩, ⟨raised, further⟩, ?_, ?_⟩,
        .inr ?_⟩
      · rw [← cut]
        exact serving
      · rw [List.length_cons]
        dsimp only
        omega
      · intro other same
        exact told other (remote.trans same)
      · simp only [debt, headNext]
        split <;> omega
    · rw [if_neg missing]
      refine ⟨_, rfl, rfl, above, below,
        ⟨⟨committed, serving⟩, ⟨delayedCommitted, inStep⟩, low, ?_⟩, .inr ?_⟩
      · intro other same
        cases same
      · simp only [debt, head]
        rw [if_neg missing]
        exact Nat.lt_succ_self _

theorem Behind.after (behind : Behind processing genesis above below nodes)
    (events : List (DelayedEvent Id Tx H))
    (smoothly : Database.smoothRun processing (trustedCalls events) nodes.trusted = true)
    (straightly : Database.straightRun processing (trustedCalls events) nodes.trusted = true) :
    Unfailing processing events nodes ∧ ∃ upper lower,
      Behind processing genesis upper lower (afterEvents processing events nodes) := by
  induction events generalizing nodes above below with
  | nil => exact ⟨trivial, above, below, behind⟩
  | cons event rest inductionHypothesis =>
    cases event with
    | trusted call =>
      obtain ⟨committed, serving⟩ := behind.serving
      obtain ⟨further, raised, next, higher, smoothLater, straightLater⟩ :=
        serving.afterCall smoothly straightly
      have now : Behind processing genesis (further ++ above) below
          (afterEvent processing nodes (.trusted call)) :=
        ⟨⟨raised, by rw [List.append_assoc]; exact next⟩, behind.inStep, behind.low.trans higher,
          fun irreversible same => (behind.told irreversible same).trans higher⟩
      obtain ⟨unfailing, final⟩ := inductionHypothesis now smoothLater straightLater
      exact ⟨⟨(fun same => by cases same), unfailing⟩, final⟩
    | transaction transaction =>
      obtain ⟨committed, inStep⟩ := behind.inStep
      obtain ⟨raised, next, _⟩ := inStep.pushTransaction transaction
      have now : Behind processing genesis above below
          (afterEvent processing nodes (.transaction transaction)) :=
        ⟨behind.serving, ⟨raised, next⟩, behind.low, behind.told⟩
      obtain ⟨unfailing, final⟩ := inductionHypothesis now smoothly straightly
      exact ⟨⟨(fun same => by cases same), unfailing⟩, final⟩
    | turn =>
      obtain ⟨reached, returns, same, upper, lower, now, _⟩ := behind.turn
      have after : afterEvent processing nodes .turn = reached := by
        rw [afterEvent, returns]
        rfl
      rw [trustedCalls, ← same] at smoothly straightly
      obtain ⟨unfailing, final⟩ := inductionHypothesis now smoothly straightly
      refine ⟨⟨fun _ => ⟨reached, returns⟩, after ▸ unfailing⟩, ?_⟩
      rw [afterEvents, List.foldl_cons, after]
      exact final

/-- Turns alone bring the delayed node to the last irreversible block of the trusted one. -/
theorem Behind.level (behind : Behind processing genesis above below nodes) :
    ∃ count upper lower, Behind processing genesis upper lower
        (afterEvents processing (List.replicate count .turn) nodes) ∧
      lower.length = nodes.trusted.core.lastIrreversibleBlockNum := by
  induction size : nodes.debt using Nat.strong_induction_on generalizing nodes above below with
  | h size inductionHypothesis =>
    obtain ⟨reached, returns, same, upper, lower, now, outcome⟩ := behind.turn
    rcases outcome with level | less
    · exact ⟨0, above, below, behind, level.symm⟩
    · obtain ⟨count, final, chain, behindFinal, level⟩ :=
        inductionHypothesis reached.debt (size ▸ less) now rfl
      refine ⟨count + 1, final, chain, ?_, by rw [level, same]⟩
      have after : afterEvent processing nodes .turn = reached := by
        rw [afterEvent, returns]
        rfl
      rw [List.replicate_succ, afterEvents, List.foldl_cons, after]
      exact behindFinal

/-- Whatever a trusted node that stays straight and smooth does in between, the delayed node meets
no exception, its chain is the lower end of the trusted one's within the irreversible part, and it
can be brought level with turns alone. -/
theorem delayed_node_follows (hashing : Hashing Id Tx H) (processing : Processing Id Tx H R)
    (genesis : R) (events : List (DelayedEvent Id Tx H))
    (smoothly : Database.smoothRun processing (trustedCalls events)
      (Database.genesis hashing genesis) = true)
    (straightly : Database.straightRun processing (trustedCalls events)
      (Database.genesis hashing genesis) = true) :
    let reached := afterEvents processing events (DelayedNodes.genesis hashing genesis)
    Unfailing processing events (DelayedNodes.genesis hashing genesis) ∧
      (∃ above below, Database.AppliedChain processing genesis (above ++ below) reached.trusted ∧
        Database.AppliedChain processing genesis below reached.delayed ∧
        below.length ≤ reached.trusted.core.lastIrreversibleBlockNum) ∧
      ∃ count, (afterEvents processing (List.replicate count .turn) reached).delayed.core.headBlockNumber =
        reached.trusted.core.lastIrreversibleBlockNum := by
  intro reached
  have begins : Behind processing genesis [] [] (DelayedNodes.genesis hashing genesis) :=
    ⟨⟨0, Database.serving_genesis processing genesis⟩, ⟨0, Database.inStep_genesis processing genesis⟩,
      Nat.zero_le _, (fun irreversible same => by cases same)⟩
  obtain ⟨unfailing, above, below, behind⟩ := begins.after events smoothly straightly
  obtain ⟨committed, serving⟩ := behind.serving
  obtain ⟨delayedCommitted, inStep⟩ := behind.inStep
  obtain ⟨count, upper, lower, final, level⟩ := behind.level
  obtain ⟨_, caughtUp⟩ := final.inStep
  exact ⟨unfailing, ⟨above, below, serving.inStep.aligned.together.replayed,
    inStep.aligned.together.replayed, behind.low⟩, count, caughtUp.quiescent.number.trans level⟩

end DelayedNodes

/-! ## A trusted node with a chain of two witnesses -/

namespace SignedChain

/-- The two nodes on new data directories. -/
def paired : DelayedNodes (Hashing.spelled Unit Bool) Unit := DelayedNodes.genesis _ ()

/-- The trusted node gets blocks of which some become irreversible, and the delayed node asks
before and after. -/
def delayedRun : List (DelayedEvent (List (Entry Unit Bool)) Unit Bool) :=
  .turn :: ((pushes "alice" [] 24).map .trusted ++ [.turn, .turn, .transaction (), .turn])

theorem delayed_run_follows :
    DelayedNodes.Unfailing processing delayedRun paired ∧
      ∃ count, (DelayedNodes.afterEvents processing (List.replicate count .turn)
        (DelayedNodes.afterEvents processing delayedRun paired)).delayed.core.headBlockNumber =
          (DelayedNodes.afterEvents processing delayedRun
            paired).trusted.core.lastIrreversibleBlockNum := by
  obtain ⟨unfailing, _, level⟩ := DelayedNodes.delayed_node_follows (Hashing.spelled Unit Bool)
    processing () delayedRun (by decide +kernel) (by decide +kernel)
  exact ⟨unfailing, level⟩

end SignedChain

end DeipChain.Chain
