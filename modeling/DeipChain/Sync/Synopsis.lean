import DeipChain.Lib.Halving
import DeipChain.Sync.Lookups

/-!
# Synopses and their answers

A node that asks a peer for blocks sends a synopsis of what it has: ids at heights that get
closer and closer together, from the last irreversible block up to the block it builds on. The
peer answers with the ids of its own chain from the last one of these on. Both functions belong
to the application, which reads them out of the database.
-/
namespace DeipChain.Chain

open Halving

variable {Id Tx H R : Type} {hashing : Hashing Id Tx H}

/-- The ids of a batch from a height on, and how many of the chain come after them. -/
def batch (spine : List Id) (height limit : Nat) : List Id × Nat :=
  let result := (spine.drop (height - 1)).take limit
  (result, if result = [] then 0 else spine.length - (height - 1 + result.length))

section Shared

variable [DecidableEq Id]

/-- The height of the last id of a synopsis that is on a chain or the null id. An empty synopsis
stands for the null id. -/
def sharedHeight (hashing : Hashing Id Tx H) (chain : List (Block Id Tx H))
    (synopsis : List Id) : Option Nat :=
  if synopsis = [] then some 0
  else
    (synopsis.reverse.find? (fun id => id = hashing.null ∨ id ∈ ids hashing chain)).map
      hashing.numFromId

end Shared

namespace Database

variable [DecidableEq Id]

/-- The loop of `get_block_ids` over the synopsis, which is given from its end. -/
def lastKnownBlockId (database : Database hashing R) : List Id → Except SyncError Id
  | [] => .error .unreachableFork
  | id :: rest =>
    if id = hashing.null then .ok id
    else if database.isKnownBlock id then
      (database.isIncludedBlock id).bind (fun included =>
        if included then .ok id else lastKnownBlockId database rest)
    else lastKnownBlockId database rest

/-- The loop of `get_block_ids` over the heights. -/
def collectIds (limit : Nat) (database : Database hashing R) :
    Nat → Nat → List Id → Except SyncError (List Id)
  | 0, _, result => .ok result
  | fuel + 1, num, result =>
    if num ≤ database.core.headBlockNumber ∧ result.length < limit then
      if num > 0 then
        (database.getBlockIdForNum num).bind (fun id =>
          collectIds limit database fuel (num + 1) (result ++ [id]))
      else collectIds limit database fuel (num + 1) result
    else .ok result

/-- `get_block_ids`, with the count of the remaining items. -/
def getBlockIds (synopsis : List Id) (limit : Nat) (database : Database hashing R) :
    Except SyncError (List Id × Nat) :=
  let head := database.core.headBlockNumber
  if head = 0 then .ok ([], 0)
  else
    (if synopsis = [] ∨ synopsis = [hashing.null] then .ok hashing.null
      else database.lastKnownBlockId synopsis.reverse).bind (fun lastKnown =>
        let num := hashing.numFromId lastKnown
        (database.collectIds limit (head + 1 - num) num []).map (fun result =>
          (result,
            match result.getLast? with
            | some last => head - hashing.numFromId last
            | none => 0)))

/-- The loop of `get_blockchain_synopsis`: an id up to the fork comes from the chain, one above
it from the history of the fork. -/
def summarize (forkHistory : List Id) (nonForkHigh high after low : Nat)
    (database : Database hashing R) : Except SyncError (List Id) :=
  (climb (high + after) high low).mapM (fun num =>
    if num ≤ nonForkHigh then database.getBlockIdForNum num
    else .ok (idAt hashing forkHistory (num - nonForkHigh)))

/-- `get_blockchain_synopsis` -/
def getBlockchainSynopsis (reference : Id) (after : Nat) (database : Database hashing R) :
    Except SyncError (List Id) :=
  let low := database.core.lastIrreversibleBlockNum
  if reference = hashing.null then
    let high := database.core.headBlockNumber
    if high = 0 then .ok [] else database.summarize [] high high after (max low 1)
  else
    (database.isIncludedBlock reference).bind (fun included =>
      if included then
        let high := hashing.numFromId reference
        database.summarize [] high high after (max (min low high) 1)
      else
        (database.getBlockIdsOnFork reference).bind (fun history =>
          let forkHistory := history.dropLast.reverse
          let nonForkHigh := hashing.numFromId (history.getLast?.getD hashing.null)
          if nonForkHigh < low then .error .olderThanUndoHistory
          else
            database.summarize forkHistory nonForkHigh (nonForkHigh + forkHistory.length) after
              (max low 1)))

end Database

/-! ## Answers -/

section Lists

theorem mapM_ok {Item Result Thrown : Type} {items : List Item} {run : Item → Except Thrown Result}
    {result : Item → Result} (each : ∀ item ∈ items, run item = .ok (result item)) :
    items.mapM run = .ok (items.map result) := by
  induction items with
  | nil => rfl
  | cons item rest inductionHypothesis =>
    rw [List.mapM_cons, each item List.mem_cons_self,
      inductionHypothesis (fun other member => each other (List.mem_cons_of_mem _ member))]
    rfl

theorem ok_of_toOption {Result Thrown : Type} {computation : Except Thrown Result} {result : Result}
    (value : computation.toOption = some result) : computation = .ok result := by
  cases computation with
  | error thrown => cases value
  | ok other => exact congrArg Except.ok (Option.some.inj value)

variable {chain above base : List (Block Id Tx H)} {height limit : Nat}

/-- The batch of a chain ends at the height it leads up to. -/
theorem batch_last (linked : IsChain hashing chain) {last : Id}
    (ends : (batch (ids hashing chain) height limit).1.getLast? = some last) :
    hashing.numFromId last = height - 1 + (batch (ids hashing chain) height limit).1.length := by
  have shorter : (batch (ids hashing chain) height limit).1.length =
      min limit (chain.length - (height - 1)) := by simp [batch]
  rw [List.getLast?_eq_getElem?] at ends
  obtain ⟨bound, same⟩ := List.getElem?_eq_some_iff.mp ends
  simp only [batch, List.getElem_take, List.getElem_drop] at same
  have positive : 0 < (batch (ids hashing chain) height limit).1.length := by omega
  have place : (ids hashing chain)[height - 1 +
      ((batch (ids hashing chain) height limit).1.length - 1)]? = some last := by
    rw [List.getElem?_eq_some_iff]
    exact ⟨by simp only [ids_length]; omega, same⟩
  have index : height - 1 + ((batch (ids hashing chain) height limit).1.length - 1) =
      height - 1 + (batch (ids hashing chain) height limit).1.length - 1 := by omega
  rw [index] at place
  have above : 0 < height - 1 + (batch (ids hashing chain) height limit).1.length := by omega
  have found := num_idAt linked above (by omega)
  rw [idAt, place, Option.getD_some] at found
  exact found.1

theorem idAt_append (positive : 0 < height) (within : height ≤ base.length) :
    idAt hashing (ids hashing (above ++ base)) height = idAt hashing (ids hashing base) height := by
  rw [idAt, idAt, ids_append, List.getElem?_append_left (by simp only [ids_length]; omega)]

theorem idAt_append_above (higher : base.length < height) :
    idAt hashing (ids hashing (above ++ base)) height =
      idAt hashing (ids hashing above) (height - base.length) := by
  rw [idAt, idAt, ids_append, List.getElem?_append_right (by simp only [ids_length]; omega),
    ids_length]
  congr 2
  omega

/-- The chain up to one of its ids. -/
theorem lower_of_mem (linked : IsChain hashing chain) {id : Id} (member : id ∈ ids hashing chain) :
    ∃ above base, chain = above ++ base ∧ tip hashing base = id ∧ IsChain hashing base ∧
      base.length = hashing.numFromId id := by
  obtain ⟨block, onChain, rfl⟩ := mem_ids.mp member
  obtain ⟨above, rest, rfl, named, lower⟩ := split_of_mem linked onChain
  have whole : IsChain hashing (block :: rest) := ⟨named, lower⟩
  refine ⟨above, block :: rest, rfl, rfl, whole, ?_⟩
  rw [List.length_cons, hashing.numFromId_id]
  exact (num_of_chain whole).symm

end Lists

namespace Database.Quiescent

variable [DecidableEq Id] {processing : Processing Id Tx H R} {genesis : R}
  {chain : List (Block Id Tx H)} {committed : Nat} {database : Database hashing R}
  (quiescent : Quiescent processing genesis chain committed database)
include quiescent

/-- The scan stops at the first id that is null or on the chain. -/
theorem lastKnownBlockId (synopsis : List Id) :
    database.lastKnownBlockId synopsis =
      match synopsis.find? (fun id => id = hashing.null ∨ id ∈ ids hashing chain) with
      | some id => .ok id
      | none => .error .unreachableFork := by
  induction synopsis with
  | nil => rfl
  | cons id rest inductionHypothesis =>
    rw [Database.lastKnownBlockId]
    by_cases null : id = hashing.null
    · rw [if_pos null, List.find?_cons_of_pos (by simp [null])]
    · rw [if_neg null]
      by_cases member : id ∈ ids hashing chain
      · have bounds := idAt_num quiescent.linked member
        rw [if_pos (quiescent.isKnownBlock member), quiescent.isIncludedBlock,
          if_pos ⟨bounds.1, bounds.2.1⟩, List.find?_cons_of_pos (by simp [member])]
        simp [Except.bind, member]
      · rw [List.find?_cons_of_neg (by simp [null, member]), ← inductionHypothesis]
        by_cases known : database.isKnownBlock id = true
        · rw [if_pos known, quiescent.isIncludedBlock, if_pos (quiescent.known_bounds known)]
          simp [Except.bind, member]
        · rw [if_neg known]

theorem collectIds {limit fuel num : Nat} {result : List Id}
    (enough : fuel = chain.length + 1 - num) :
    database.collectIds limit fuel num result =
      .ok (result ++ ((ids hashing chain).drop (num - 1)).take (limit - result.length)) := by
  induction fuel generalizing num result with
  | zero =>
    rw [Database.collectIds, List.drop_eq_nil_of_le (by simp only [ids_length]; omega),
      List.take_nil, List.append_nil]
  | succ fuel inductionHypothesis =>
    rw [Database.collectIds, quiescent.number]
    by_cases room : result.length < limit
    · rw [if_pos ⟨by omega, room⟩]
      by_cases positive : num > 0
      · have inside : num - 1 < (ids hashing chain).length := by
          rw [ids_length]
          omega
        have first : idAt hashing (ids hashing chain) num = (ids hashing chain)[num - 1] := by
          rw [idAt, List.getElem?_eq_getElem inside, Option.getD_some]
        rw [if_pos positive, quiescent.getBlockIdForNum positive (by omega), Except.bind,
          inductionHypothesis (by omega), List.drop_eq_getElem_cons inside, ← first]
        have rest : limit - result.length = limit - (result.length + 1) + 1 := by omega
        rw [rest, List.take_succ_cons, List.length_append, List.length_singleton,
          Nat.sub_add_cancel positive, Nat.add_sub_cancel, List.append_assoc, List.singleton_append]
      · have start : num = 0 := by omega
        rw [if_neg positive, inductionHypothesis (by omega), start]
    · rw [if_neg (fun loop => room loop.2), Nat.sub_eq_zero_of_le (by omega), List.take_zero,
        List.append_nil]

/-- The answer to a synopsis are the ids from the last shared one on. -/
theorem getBlockIds (synopsis : List Id) (limit : Nat) :
    database.getBlockIds synopsis limit =
      if chain = [] then .ok ([], 0)
      else
        match sharedHeight hashing chain synopsis with
        | some height => .ok (batch (ids hashing chain) height limit)
        | none => .error .unreachableFork := by
  have scanned : (if synopsis = [] ∨ synopsis = [hashing.null] then .ok hashing.null
      else database.lastKnownBlockId synopsis.reverse).map hashing.numFromId =
        match sharedHeight hashing chain synopsis with
        | some height => .ok height
        | none => .error .unreachableFork := by
    rw [sharedHeight]
    by_cases empty : synopsis = []
    · rw [if_pos (.inl empty), if_pos empty, Except.map, hashing.numFromId_null]
    · rw [if_neg empty]
      by_cases null : synopsis = [hashing.null]
      · rw [if_pos (.inr null), null]
        simp [Except.map]
      · rw [if_neg (by simp [empty, null]), quiescent.lastKnownBlockId]
        cases synopsis.reverse.find? (fun id => id = hashing.null ∨ id ∈ ids hashing chain) <;> rfl
  rw [Database.getBlockIds, quiescent.number]
  by_cases bare : chain = []
  · rw [if_pos bare, if_pos (by rw [bare]; rfl)]
  · have positive : chain.length ≠ 0 := fun none => bare (List.eq_nil_of_length_eq_zero none)
    rw [if_neg bare, if_neg positive]
    generalize (if synopsis = [] ∨ synopsis = [hashing.null] then .ok hashing.null
      else database.lastKnownBlockId synopsis.reverse) = scan at scanned ⊢
    cases shared : sharedHeight hashing chain synopsis with
    | none =>
      rw [shared] at scanned
      cases scan with
      | error thrown => simpa [Except.map, Except.bind] using scanned
      | ok id => cases scanned
    | some height =>
      rw [shared] at scanned
      cases scan with
      | error thrown => cases scanned
      | ok id =>
        have same : hashing.numFromId id = height := by simpa [Except.map] using scanned
        simp only [Except.bind, same, quiescent.collectIds rfl, Except.map, List.nil_append,
          List.length_nil, Nat.sub_zero]
        congr 1
        rw [batch, Prod.mk.injEq]
        refine ⟨rfl, ?_⟩
        cases ends : (((ids hashing chain).drop (height - 1)).take limit).getLast? with
        | none => rw [List.getLast?_eq_none_iff.mp ends, if_pos rfl]
        | some last =>
          have number := @batch_last _ _ _ _ _ height limit quiescent.linked _ ends
          have some : ((ids hashing chain).drop (height - 1)).take limit ≠ [] := by
            intro none
            rw [none] at ends
            cases ends
          rw [if_neg some, ids_length]
          dsimp only
          rw [number]
          rfl

end Database.Quiescent

/-! ## Synopses -/

/-- The ids of a chain at the heights of a climb that goes on above the chain. -/
def summaryOf (hashing : Hashing Id Tx H) (low after : Nat) (viewed : List (Block Id Tx H)) :
    List Id :=
  if viewed = [] then []
  else (climb (viewed.length + after) viewed.length low).map (idAt hashing (ids hashing viewed))

/-- The lowest height of a synopsis. -/
def startOf (irreversible : Nat) (viewed : List (Block Id Tx H)) : Nat :=
  max (min irreversible viewed.length) 1

namespace Database

variable [DecidableEq Id]

/-- The chain up to a reference point: a lower part of the applied chain, or the chain of a fork
that leaves it above the last irreversible block. -/
structure Viewed (chain : List (Block Id Tx H)) (reference : Id) (database : Database hashing R)
    (viewed : List (Block Id Tx H)) : Prop where
  linked : IsChain hashing viewed
  top : tip hashing viewed = if reference = hashing.null then tip hashing chain else reference
  fork : ∃ upper above base, viewed = upper ++ base ∧ chain = above ++ base ∧
    (upper = [] ∨ database.core.lastIrreversibleBlockNum ≤ base.length) ∧
    ∀ block ∈ upper, ∃ item ∈ database.forkDb.alive, item.block = block

namespace Quiescent

variable {processing : Processing Id Tx H R} {genesis : R}
  {chain above base upper : List (Block Id Tx H)} {committed low : Nat}
  {database : Database hashing R}
  (quiescent : Quiescent processing genesis chain committed database)
include quiescent

theorem summarize (split : chain = above ++ base) (positive : 0 < low)
    (within : low ≤ (upper ++ base).length) (after : Nat) :
    database.summarize (ids hashing upper) base.length (upper ++ base).length after low =
      .ok (summaryOf hashing low after (upper ++ base)) := by
  have some : upper ++ base ≠ [] := by
    intro none
    rw [none, List.length_nil] at within
    omega
  rw [Database.summarize, summaryOf, if_neg some]
  refine mapM_ok (fun num member => ?_)
  have bounds := climb_bounds within member
  split
  · rename_i low
    have onChain : num ≤ chain.length := by
      rw [split, List.length_append]
      omega
    rw [quiescent.getBlockIdForNum (by omega) onChain, split, idAt_append (by omega) low,
      idAt_append (by omega) low]
  · rename_i high
    rw [idAt_append_above (by omega)]

theorem irreversible_le_length : database.core.lastIrreversibleBlockNum ≤ chain.length :=
  quiescent.reached.irreversible

/-- Without a reference point, and for one on the applied chain, there is a synopsis. -/
theorem getBlockchainSynopsis_of_mem {reference : Id}
    (usable : reference = hashing.null ∨ reference ∈ ids hashing chain) :
    ∃ above viewed, chain = above ++ viewed ∧
      (tip hashing viewed = if reference = hashing.null then tip hashing chain else reference) ∧
      ∀ after, database.getBlockchainSynopsis reference after =
        .ok (summaryOf hashing (startOf database.core.lastIrreversibleBlockNum viewed) after
          viewed) := by
  have irreversible := quiescent.irreversible_le_length
  simp only [Database.getBlockchainSynopsis, quiescent.number, quiescent.isIncludedBlock]
  by_cases null : reference = hashing.null
  · refine ⟨[], chain, rfl, (if_pos null).symm, fun after => ?_⟩
    rw [if_pos null]
    by_cases bare : chain = []
    · rw [if_pos (by rw [bare]; rfl), summaryOf, if_pos bare]
    · have positive : chain.length ≠ 0 := fun none => bare (List.eq_nil_of_length_eq_zero none)
      rw [if_neg positive, startOf, Nat.min_eq_left irreversible]
      have whole : chain = [] ++ chain := rfl
      exact @summarize _ _ _ _ _ _ _ _ chain [] chain [] _ _ _ quiescent whole (by omega)
        (by rw [List.nil_append]; omega) after
  · have member := usable.resolve_left null
    have bounds := idAt_num quiescent.linked member
    obtain ⟨above, base, split, top, lower, number⟩ := lower_of_mem quiescent.linked member
    refine ⟨above, base, split, by rw [if_neg null, top], fun after => ?_⟩
    rw [if_neg null, if_pos ⟨bounds.1, bounds.2.1⟩]
    simp only [Except.bind, member, decide_true, if_true]
    rw [← number]
    exact @summarize _ _ _ _ _ _ _ _ chain above base [] _ _ _ quiescent split (by omega)
      (by rw [List.nil_append]; omega) after

/-- A reference point has a chain, whose ids are what a synopsis is made of, or there is an
exception, and neither depends on what comes after it. -/
theorem getBlockchainSynopsis (reference : Id) :
    (∃ viewed, Viewed chain reference database viewed ∧ ∀ after,
      database.getBlockchainSynopsis reference after =
        .ok (summaryOf hashing (startOf database.core.lastIrreversibleBlockNum viewed) after
          viewed)) ∨
    ∃ thrown, ∀ after, database.getBlockchainSynopsis reference after = .error thrown := by
  by_cases usable : reference = hashing.null ∨ reference ∈ ids hashing chain
  · obtain ⟨above, viewed, split, top, summary⟩ := quiescent.getBlockchainSynopsis_of_mem usable
    have linked := quiescent.linked.drop above.length
    rw [split, List.drop_left] at linked
    refine .inl ⟨viewed, ⟨linked, top, [], above, viewed, rfl, split, .inl rfl, ?_⟩, summary⟩
    intro block absent
    cases absent
  · rw [not_or] at usable
    obtain ⟨null, outside⟩ := usable
    simp only [Database.getBlockchainSynopsis, quiescent.isIncludedBlock, if_neg null]
    by_cases bounds : 0 < hashing.numFromId reference ∧ hashing.numFromId reference ≤ chain.length
    · simp only [if_pos bounds, Except.bind, outside, decide_false, Bool.false_eq_true, if_false]
      cases forked : database.getBlockIdsOnFork reference with
      | error thrown => exact .inr ⟨thrown, fun after => rfl⟩
      | ok history =>
        obtain ⟨upper, above, base, split, linked, some, top, alive, rfl⟩ :=
          quiescent.getBlockIdsOnFork forked
        have lower : IsChain hashing base := by
          have dropped := linked.drop upper.length
          rwa [List.drop_left] at dropped
        have number : hashing.numFromId (tip hashing base) = base.length := num_tip lower
        have fork : (upper.map hashing.id).reverse = ids hashing upper := rfl
        simp only [List.dropLast_concat, List.getLast?_concat, Option.getD_some, number, fork,
          ids_length]
        by_cases old : base.length < database.core.lastIrreversibleBlockNum
        · exact .inr ⟨.olderThanUndoHistory, fun after => by simp [old]⟩
        · refine .inl ⟨upper ++ base, ⟨linked, by rw [if_neg null, top], upper, above, base, rfl,
            split, .inr (by omega), alive⟩, fun after => ?_⟩
          have positive := List.length_pos_of_ne_nil some
          rw [if_neg old, startOf, List.length_append,
            Nat.min_eq_left (by omega : database.core.lastIrreversibleBlockNum ≤ _)]
          rw [Nat.add_comm, ← List.length_append]
          refine quiescent.summarize split (by omega) ?_ after
          rw [List.length_append]
          omega
    · exact .inr ⟨.unknownHeight, fun after => by simp [if_neg bounds, Except.bind]⟩

end Quiescent

end Database

section Runs

variable [DecidableEq Id]

/-- At every point of a smooth run a request is answered with the ids of the applied chain from
the last shared one on, whatever the synopsis and the limit are. Only when the synopsis has no
such id there is an exception. -/
theorem smooth_run_answers (processing : Processing Id Tx H R) (genesis : R)
    (calls : List (Database.Call Id Tx H))
    (smoothly : Database.smoothRun processing calls (Database.genesis hashing genesis) = true) :
    ∃ chain,
      Database.AppliedChain processing genesis chain
        (Database.afterCalls processing calls (Database.genesis hashing genesis)) ∧
      ∀ synopsis limit,
        (Database.afterCalls processing calls (Database.genesis hashing genesis)).getBlockIds
            synopsis limit =
          if chain = [] then .ok ([], 0)
          else if (sharedHeight hashing chain synopsis).isNone then .error .unreachableFork
          else .ok (batch (ids hashing chain) ((sharedHeight hashing chain synopsis).getD 0)
            limit) := by
  obtain ⟨chain, committed, quiescent, _, _⟩ :=
    Database.afterCalls_quiescent calls (Database.quiescent_genesis processing genesis) smoothly
  refine ⟨chain, quiescent.resting.anchored.tracked.lineage.replayed, fun synopsis limit => ?_⟩
  rw [quiescent.getBlockIds]
  cases sharedHeight hashing chain synopsis <;> rfl

end Runs

namespace SignedChain

/-- The node answers from its own branch after a switch of forks. -/
theorem switched_run_answers :
    ∃ chain,
      Database.AppliedChain processing () chain
        (Database.afterCalls processing (pushes "alice" [] 1 ++ pushes "bob" [] 2) node) ∧
      ∀ synopsis limit,
        (Database.afterCalls processing (pushes "alice" [] 1 ++ pushes "bob" [] 2)
            node).getBlockIds synopsis limit =
          if chain = [] then .ok ([], 0)
          else if (sharedHeight (Hashing.spelled Unit Bool) chain synopsis).isNone then
            .error .unreachableFork
          else .ok (batch (ids (Hashing.spelled Unit Bool) chain)
            ((sharedHeight (Hashing.spelled Unit Bool) chain synopsis).getD 0) limit) :=
  smooth_run_answers processing () (pushes "alice" [] 1 ++ pushes "bob" [] 2) (by decide +kernel)

end SignedChain

end DeipChain.Chain
