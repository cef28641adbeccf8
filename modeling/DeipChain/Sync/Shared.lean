import DeipChain.Sync.Inventory

/-!
# What two chains share

Two chains with a common id are the same up to it. So the ids of a synopsis that another chain
has are those up to some height, and the answer to the synopsis goes on from the last of them:
it continues the asking node's chain as far as the two chains are the same, and not much of it is
sent twice.
-/
namespace DeipChain.Chain

open Halving

variable {Id Tx H R : Type} {hashing : Hashing Id Tx H}

section Lists

variable {chain other above below : List (Block Id Tx H)} {block : Block Id Tx H}

@[simp] theorem ids_nil : ids hashing ([] : List (Block Id Tx H)) = [] := rfl

theorem ids_cons : ids hashing (block :: below) = ids hashing below ++ [hashing.id block] := by
  simp [ids]

@[simp] theorem ids_eq_nil : ids hashing chain = [] ↔ chain = [] := by
  simp [ids]

/-- Two chains with a common id have a common lower part that ends with it. -/
theorem common_of_mem (linked : IsChain hashing chain) (linkedOther : IsChain hashing other) {id : Id}
    (member : id ∈ ids hashing chain) (memberOther : id ∈ ids hashing other) :
    ∃ above aboveOther block below, chain = above ++ block :: below ∧
      other = aboveOther ++ block :: below ∧ hashing.id block = id := by
  obtain ⟨above, base, rfl, top, lower, length⟩ := lower_of_mem linked member
  obtain ⟨aboveOther, baseOther, rfl, topOther, lowerOther, _⟩ :=
    lower_of_mem linkedOther memberOther
  obtain rfl := isChain_unique lower lowerOther (top.trans topOther.symm)
  cases base with
  | nil =>
    have positive := (idAt_num linked member).1
    rw [← length] at positive
    cases positive
  | cons block below => exact ⟨above, aboveOther, block, below, rfl, rfl, top⟩

theorem idAt_mem_lower {height : Nat} (positive : 0 < height) (within : height ≤ below.length) :
    idAt hashing (ids hashing (above ++ below)) height ∈ ids hashing below := by
  rw [idAt_append positive within]
  have inside : height - 1 < (ids hashing below).length := by
    rw [ids_length]
    omega
  rw [idAt, List.getElem?_eq_getElem inside, Option.getD_some]
  exact List.getElem_mem inside

theorem num_of_below (linked : IsChain hashing (above ++ block :: below)) :
    hashing.numFromId (hashing.id block) = below.length + 1 := by
  have lower := linked.drop above.length
  rw [List.drop_left] at lower
  rw [hashing.numFromId_id]
  exact num_of_chain lower

/-- A batch starts with the block of its height and leaves the rest of the chain. -/
theorem batch_parts {limit : Nat} (room : 0 < limit) :
    ∃ rest got, above = rest ++ got ∧ got.length = min (limit - 1) above.length ∧
      batch (ids hashing (above ++ block :: below)) (below.length + 1) limit =
        (hashing.id block :: ids hashing got, rest.length) := by
  refine ⟨above.take (above.length - (limit - 1)), above.drop (above.length - (limit - 1)),
    (List.take_append_drop _ _).symm, by rw [List.length_drop]; omega, ?_⟩
  have taken : ((ids hashing (above ++ block :: below)).drop below.length).take limit =
      hashing.id block :: ids hashing (above.drop (above.length - (limit - 1))) := by
    obtain ⟨less, rfl⟩ : ∃ less, limit = less + 1 := ⟨limit - 1, by omega⟩
    rw [ids_append, ids_cons, List.append_assoc, List.drop_left' ids_length, List.singleton_append,
      List.take_succ_cons, Nat.add_sub_cancel, ids, ids, List.take_reverse, List.length_map,
      List.map_drop]
  have number : batch (ids hashing (above ++ block :: below)) (below.length + 1) limit =
      (hashing.id block :: ids hashing (above.drop (above.length - (limit - 1))),
        (above ++ block :: below).length -
          (below.length + (ids hashing (above.drop (above.length - (limit - 1)))).length + 1)) := by
    simp only [batch, Nat.add_sub_cancel, taken, ids_length, List.length_cons, reduceCtorEq,
      if_false, Nat.add_assoc]
  rw [number]
  simp only [ids_length, List.length_append, List.length_cons, List.length_drop, List.length_take,
    Prod.mk.injEq, true_and]
  omega

end Lists

section Heights

variable {viewed chain : List (Block Id Tx H)} {low height : Nat}

theorem summaryOf_nil (low after : Nat) :
    summaryOf hashing low after ([] : List (Block Id Tx H)) = [] := if_pos rfl

theorem summaryOf_ne_nil {after : Nat} (some : viewed ≠ []) :
    summaryOf hashing low after viewed ≠ [] := by
  rw [summaryOf, if_neg some, climb_eq]
  simp

theorem startOf_bounds {irreversible : Nat} (some : viewed ≠ []) :
    0 < startOf irreversible viewed ∧ startOf irreversible viewed ≤ viewed.length := by
  have positive := List.length_pos_of_ne_nil some
  unfold startOf
  omega

variable [DecidableEq Id]

/-- The shared height of a synopsis is the highest one at which the other chain has the id. -/
theorem sharedHeight_summaryOf (linked : IsChain hashing viewed) (some : viewed ≠ [])
    (positive : 0 < low) (within : low ≤ viewed.length) :
    sharedHeight hashing chain (summaryOf hashing low 0 viewed) =
      (climb viewed.length viewed.length low).reverse.find?
        (fun height => idAt hashing (ids hashing viewed) height ∈ ids hashing chain) := by
  rw [sharedHeight, if_neg (summaryOf_ne_nil some), summaryOf, if_neg some, Nat.add_zero,
    ← List.map_reverse, List.find?_map, Option.map_map]
  have known : ∀ height ∈ (climb viewed.length viewed.length low).reverse,
      hashing.numFromId (idAt hashing (ids hashing viewed) height) = height ∧
        idAt hashing (ids hashing viewed) height ≠ hashing.null := by
    intro height member
    have bounds := climb_bounds within (List.mem_reverse.mp member)
    obtain ⟨number, onChain⟩ := num_idAt linked (by omega) bounds.2
    obtain ⟨block, _, same⟩ := mem_ids.mp onChain
    exact ⟨number, same ▸ id_ne_null block⟩
  generalize (climb viewed.length viewed.length low).reverse = heights at known
  induction heights with
  | nil => rfl
  | cons height rest inductionHypothesis =>
    obtain ⟨number, notNull⟩ := known height List.mem_cons_self
    have later := inductionHypothesis (fun other member =>
      known other (List.mem_cons_of_mem _ member))
    by_cases shared : idAt hashing (ids hashing viewed) height ∈ ids hashing chain
    · rw [List.find?_cons_of_pos (by simp [shared]), List.find?_cons_of_pos (by simp [shared])]
      simp [number]
    · rw [List.find?_cons_of_neg (by simp [shared, notNull]),
        List.find?_cons_of_neg (by simp [shared])]
      exact later

/-- Where a synopsis and a chain meet, the chains are the same below. -/
theorem sharedHeight_some (linked : IsChain hashing viewed) (linkedChain : IsChain hashing chain)
    (within : viewed = [] ∨ 0 < low ∧ low ≤ viewed.length)
    (shared : sharedHeight hashing chain (summaryOf hashing low 0 viewed) = some height) :
    (viewed = [] ∧ height = 0) ∨
      ∃ above aboveChain block below, viewed = above ++ block :: below ∧
        chain = aboveChain ++ block :: below ∧ height = below.length + 1 ∧
        hashing.id block ∈ summaryOf hashing low 0 viewed := by
  by_cases bare : viewed = []
  · subst bare
    rw [summaryOf_nil, sharedHeight, if_pos rfl] at shared
    exact .inl ⟨rfl, (Option.some.inj shared).symm⟩
  · obtain ⟨positive, low⟩ := within.resolve_left bare
    rw [sharedHeight_summaryOf linked bare positive low] at shared
    have member := List.mem_reverse.mp (List.mem_of_find?_eq_some shared)
    have onChain := List.find?_some shared
    rw [decide_eq_true_eq] at onChain
    have bounds := climb_bounds low member
    obtain ⟨number, onViewed⟩ := num_idAt linked (by omega) bounds.2
    obtain ⟨above, aboveChain, block, below, rfl, rfl, same⟩ :=
      common_of_mem linked linkedChain onViewed onChain
    refine .inr ⟨above, aboveChain, block, below, rfl, rfl, ?_, ?_⟩
    · rw [← number, ← same, num_of_below linked]
    · rw [summaryOf, if_neg bare, same]
      exact List.mem_map.mpr ⟨height, by rw [Nat.add_zero]; exact member, rfl⟩

/-- A synopsis meets a chain that has its lowest block, and of the common part not more is sent
again than the asking node has above it. -/
theorem sharedHeight_near {above aboveChain common : List (Block Id Tx H)}
    (linked : IsChain hashing (above ++ common)) (positive : 0 < low)
    (within : low ≤ common.length) :
    ∃ height, sharedHeight hashing (aboveChain ++ common)
        (summaryOf hashing low 0 (above ++ common)) = some height ∧
      common.length ≤ height + above.length := by
  have length : (above ++ common).length = above.length + common.length := List.length_append
  have some : above ++ common ≠ [] := by
    intro none
    rw [none, List.length_nil] at length
    omega
  have below : common.length ≤ (above ++ common).length := by omega
  obtain ⟨height, member, lower, near⟩ := climb_near within below
  rw [sharedHeight_summaryOf linked some positive (by omega)]
  have atHeight : idAt hashing (ids hashing (above ++ common)) height ∈
      ids hashing (aboveChain ++ common) := by
    have bounds := climb_bounds (by omega) member
    rw [@ids_append _ _ _ hashing aboveChain]
    exact List.mem_append_left _ (idAt_mem_lower (by omega) lower)
  have present : ((climb (above ++ common).length (above ++ common).length low).reverse.find?
      (fun height => idAt hashing (ids hashing (above ++ common)) height ∈
        ids hashing (aboveChain ++ common))).isSome = true := by
    rw [List.find?_isSome]
    exact ⟨height, List.mem_reverse.mpr member, decide_eq_true atHeight⟩
  obtain ⟨found, first⟩ := Option.isSome_iff_exists.mp present
  refine ⟨found, first, ?_⟩
  obtain ⟨_, before, behind, split, misses⟩ := List.find?_eq_some_iff_append.mp first
  have higher : height ≤ found := by
    have place : height ∈ before ++ found :: behind := split ▸ List.mem_reverse.mpr member
    have falls := List.pairwise_reverse.mpr (climb_rises (above ++ common).length
      (above ++ common).length low)
    rw [split] at falls
    rcases List.mem_append.mp place with earlier | later
    · have missed := misses height earlier
      simp only [atHeight, decide_true, Bool.not_true] at missed
      cases missed
    · rcases List.mem_cons.mp later with rfl | lower
      · exact Nat.le_refl _
      · exact Nat.le_of_lt (List.rel_of_pairwise_cons (List.pairwise_append.mp falls).2.1 lower)
  omega

end Heights

/-! ## Requests between two nodes -/

section Requests

variable [DecidableEq Id] {S : Type} {processing : Processing Id Tx H R} {genesis : R}
  {chain viewed : List (Block Id Tx H)} {committed : Nat} {client : Database hashing R}
  {reference : Id}

/-- The chain up to a reference point is not longer than the applied one. -/
theorem Database.Settled.viewed_length
    (settled : Database.Settled processing genesis chain committed client)
    (views : Database.Viewed chain reference client viewed) : viewed.length ≤ chain.length := by
  obtain ⟨upper, above, base, rfl, rfl, _, alive⟩ := views.fork
  cases upper with
  | nil => simp
  | cons block rest =>
    obtain ⟨item, held, same⟩ := alive block List.mem_cons_self
    have bounds := settled.quiescent.known_bounds (settled.known_of_alive held)
    rw [same, hashing.numFromId_id, ← Hashing.num, num_of_chain views.linked] at bounds
    simpa using bounds.2

omit [DecidableEq Id] in
/-- A synopsis of what is not irreversible is short. -/
theorem summaryOf_short (some : viewed ≠ []) {irreversible : Nat}
    (window : viewed.length - irreversible < maxUndoHistory) :
    (summaryOf hashing (startOf irreversible viewed) 0 viewed).length ≤ 14 := by
  obtain ⟨positive, within⟩ := @startOf_bounds _ _ _ viewed irreversible some
  rw [summaryOf, if_neg some, List.length_map, Nat.add_zero, climb_length within]
  have small : viewed.length - startOf irreversible viewed + 1 ≤ maxUndoHistory := by
    unfold startOf
    omega
  have bound : Nat.log 2 maxUndoHistory = 13 := by decide
  have steps := @Nat.log_mono_right 2 _ _ small
  omega

/-- In all states that two nodes reach by smooth runs: a synopsis of one has at most 14 ids, and
the other answers it whenever it shares the asking node's last irreversible block. The answer
goes back below the fork by no more blocks than the asking node has above it. -/
theorem requests_answered (hashing : Hashing Id Tx H) (processing : Processing Id Tx H R)
    (genesis : R) (serving : Processing Id Tx H S) (origin : S)
    (clientCalls serverCalls : List (Database.Call Id Tx H)) (reference : Id)
    (synopsis : List Id) (limit : Nat) (client : Database hashing R) (server : Database hashing S)
    (reaches : client = Database.afterCalls processing clientCalls (Database.genesis hashing genesis))
    (serverReaches :
      server = Database.afterCalls serving serverCalls (Database.genesis hashing origin))
    (smoothClient : Database.smoothRun processing clientCalls (Database.genesis hashing genesis) = true)
    (smoothServer : Database.smoothRun serving serverCalls (Database.genesis hashing origin) = true)
    (asks : client.getBlockchainSynopsis reference 0 = .ok synopsis) :
    ∃ chain serverChain viewed, Database.AppliedChain processing genesis chain client ∧
      Database.AppliedChain serving origin serverChain server ∧
      Database.Viewed chain reference client viewed ∧ synopsis.length ≤ 14 ∧
      ∀ above aboveServer common, viewed = above ++ common → serverChain = aboveServer ++ common →
        common ≠ [] → client.core.lastIrreversibleBlockNum ≤ common.length →
          ∃ height, server.getBlockIds synopsis limit =
              .ok (batch (ids hashing serverChain) height limit) ∧
            common.length ≤ height + above.length ∧ height ≤ viewed.length := by
  obtain ⟨chain, _, settled, _, _⟩ :=
    Database.afterCalls_settled clientCalls (Database.settled_genesis processing genesis) smoothClient
  obtain ⟨serverChain, _, quiescent, _, _⟩ :=
    Database.afterCalls_quiescent serverCalls (Database.quiescent_genesis serving origin) smoothServer
  rw [← reaches] at settled
  rw [← serverReaches] at quiescent
  obtain ⟨viewed, views, summary⟩ | ⟨thrown, throws⟩ :=
    settled.quiescent.getBlockchainSynopsis reference
  · obtain rfl := Except.ok.inj ((summary 0).symm.trans asks)
    refine ⟨chain, serverChain, viewed, settled.quiescent.resting.anchored.tracked.lineage.replayed,
      quiescent.resting.anchored.tracked.lineage.replayed, views, ?_, ?_⟩
    · by_cases bare : viewed = []
      · rw [bare, summaryOf_nil]
        exact Nat.zero_le _
      · have window := settled.quiescent.reached.window
        have length := settled.viewed_length views
        exact summaryOf_short bare (by omega)
    · rintro above aboveServer common rfl rfl some irreversible
      have positive := List.length_pos_of_ne_nil some
      have start : startOf client.core.lastIrreversibleBlockNum (above ++ common) ≤
          common.length := by
        rw [startOf, List.length_append]
        omega
      have whole : above ++ common ≠ [] := fun none => some (List.append_eq_nil_iff.mp none).2
      obtain ⟨low, within⟩ :=
        @startOf_bounds _ _ _ (above ++ common) client.core.lastIrreversibleBlockNum whole
      obtain ⟨height, shared, near⟩ :=
        @sharedHeight_near _ _ _ hashing _ _ above aboveServer common views.linked low start
      refine ⟨height, ?_, near, ?_⟩
      · rw [quiescent.getBlockIds, if_neg (by simp [some]), shared]
      · rcases sharedHeight_some views.linked quiescent.linked (.inr ⟨low, within⟩) shared with
          ⟨none, _⟩ | ⟨upper, _, block, below, split, _, rfl, _⟩
        · exact absurd none whole
        · rw [split, List.length_append, List.length_cons]
          omega
  · rw [throws] at asks
    cases asks

end Requests

namespace SignedChain

/-- Two nodes that have gone apart above their second block. -/
theorem forked_request_answered :
    ∃ chain serverChain viewed,
      Database.AppliedChain processing () chain
        (Database.afterCalls processing (pushes "alice" [] 3) node) ∧
      Database.AppliedChain processing () serverChain
        (Database.afterCalls processing
          (pushes "alice" [] 2 ++ pushes "bob" (branch "alice" 2 []) 3) node) ∧
      Database.Viewed chain [] (Database.afterCalls processing (pushes "alice" [] 3) node) viewed ∧
      [branch "alice" 1 [], branch "alice" 3 []].length ≤ 14 ∧
      ∀ above aboveServer common, viewed = above ++ common → serverChain = aboveServer ++ common →
        common ≠ [] →
          (Database.afterCalls processing (pushes "alice" [] 3)
            node).core.lastIrreversibleBlockNum ≤ common.length →
          ∃ height, (Database.afterCalls processing
              (pushes "alice" [] 2 ++ pushes "bob" (branch "alice" 2 []) 3) node).getBlockIds
                [branch "alice" 1 [], branch "alice" 3 []] 10 =
              .ok (batch (ids (Hashing.spelled Unit Bool) serverChain) height 10) ∧
            common.length ≤ height + above.length ∧ height ≤ viewed.length :=
  requests_answered (Hashing.spelled Unit Bool) processing () processing () (pushes "alice" [] 3)
    (pushes "alice" [] 2 ++ pushes "bob" (branch "alice" 2 []) 3) []
    [branch "alice" 1 [], branch "alice" 3 []] 10 _ _ rfl rfl (by decide +kernel)
    (by decide +kernel) (ok_of_toOption (by decide +kernel))

end SignedChain

end DeipChain.Chain
