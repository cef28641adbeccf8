import DeipChain.Sync.Rounds

/-!
# The ids of a peer that stays on its chain

As long as the other node stays on its chain, the request ends with the last id it has offered,
so that every answer goes on where the last one ended. The missing ids get fewer by all but one
of a full batch, until none is missing.
-/
namespace DeipChain.Chain

open Halving

variable {Id Tx H R S : Type} {hashing : Hashing Id Tx H}

section Progress

variable [DecidableEq Id] {serving : Processing Id Tx H S} {origin : S}
  {chain viewed ahead rest : List (Block Id Tx H)} {serverCommitted limit : Nat}
  {client : Database hashing R} {server : Database hashing S}
  {peer other : PeerConnection Id} {context : SyncContext Id}

/-- An answer from the last offered id on is put behind it. -/
theorem mergeReceived_on {offered later : List Id} {last : Id}
    (ends : peer.idsOfItemsToGet = offered ++ [last]) :
    client.mergeReceived context (last :: later) peer =
      ({ peer with idsOfItemsToGet := offered }, last :: later) := by
  have some : peer.idsOfItemsToGet ≠ [] := by
    rw [ends]
    simp
  have kept : peer.idsOfItemsToGet.rdropWhile (fun id => id ≠ last) = offered ++ [last] := by
    rw [ends, List.rdropWhile_concat_neg _ _ _ (by simp)]
  rw [Database.mergeReceived, if_neg some, kept, if_neg (by simp), List.dropLast_concat]

/-- The answer of a node that is still on the chain it has offered goes on from the last offered
id. -/
theorem Database.Quiescent.offered_on
    (quiescent : Database.Quiescent serving origin (rest ++ (ahead ++ viewed)) serverCommitted server)
    (some : ahead ≠ []) (room : 0 < limit) {low : Nat} (positive : 0 < low)
    (within : low ≤ (ahead ++ viewed).length) :
    ∃ block lower left got, ahead = block :: lower ∧ rest = left ++ got ∧
      got.length = min (limit - 1) rest.length ∧
      hashing.id block ∈ summaryOf hashing low 0 (ahead ++ viewed) ∧
      server.getBlockIds (summaryOf hashing low 0 (ahead ++ viewed)) limit =
        .ok (hashing.id block :: ids hashing got, left.length) := by
  have linked : IsChain hashing (ahead ++ viewed) := by
    have lower := quiescent.linked.drop rest.length
    rwa [List.drop_left] at lower
  obtain ⟨height, shared, near⟩ := @sharedHeight_near _ _ _ hashing low _ [] rest (ahead ++ viewed)
    linked positive within
  rw [List.nil_append] at shared
  rw [List.length_nil, Nat.add_zero] at near
  obtain ⟨bare, _⟩ | ⟨above, _, block, below, split, _, rfl, member⟩ :=
    sharedHeight_some linked quiescent.linked (.inr ⟨positive, within⟩) shared
  · exact absurd (List.append_eq_nil_iff.mp bare).1 some
  · -- the shared block is the newest one that has been offered
    have top : above = [] := by
      have lengths := congrArg List.length split
      rw [@List.length_append _ above, List.length_cons] at lengths
      exact List.eq_nil_of_length_eq_zero (by omega)
    rw [top, List.nil_append] at split
    obtain ⟨lower, rfl⟩ : ∃ lower, ahead = block :: lower := by
      cases ahead with
      | nil => exact absurd rfl some
      | cons first lower =>
        rw [List.cons_append, List.cons.injEq] at split
        exact ⟨lower, by rw [split.1]⟩
    obtain ⟨left, got, rfl, size, answer⟩ := @batch_parts _ _ _ hashing rest below block limit room
    refine ⟨block, lower, left, got, rfl, rfl, size, member, ?_⟩
    rw [quiescent.getBlockIds, if_neg (by simp), shared]
    rw [← split] at answer
    exact congrArg Except.ok answer

/-- An offer of so many more blocks does not reach into the future. -/
def Punctual (context : SyncContext Id) (time count : Nat) : Prop :=
  ∀ remaining ≤ count,
    timePointSec (time + timePointSec (remaining * syncBlockInterval)) ≤
      timePointSec (context.blockchainNow + futureSyncBlocksGracePeriodSec)

/-- A round with a node that is still on the chain it has offered. -/
theorem exchange_progress
    (serverQuiescent :
      Database.Quiescent serving origin (rest ++ (ahead ++ viewed)) serverCommitted server)
    (some : ahead ≠ []) (room : 0 < limit) (sees : Sees hashing chain peer viewed ahead)
    (summary : ∀ after, client.getBlockchainSynopsis peer.lastBlockDelegateHasSeen after =
      .ok (summaryOf hashing (startOf client.core.lastIrreversibleBlockNum viewed) after viewed))
    (punctual : Punctual context peer.lastBlockTimeDelegateHasSeen rest.length) :
    ∃ left got reached action,
      client.exchange context limit other peer server = .ok (Option.some (reached, action)) ∧
      (action = .fetchSyncItems ∨ action = .fetchNextBatch) ∧ rest = left ++ got ∧
      got.length = min (limit - 1) rest.length ∧
      Sees hashing chain reached viewed (got ++ ahead) ∧
      reached.lastBlockDelegateHasSeen = peer.lastBlockDelegateHasSeen ∧
      reached.lastBlockTimeDelegateHasSeen = peer.lastBlockTimeDelegateHasSeen ∧
      reached.numberOfUnfetchedItemIds = left.length := by
  have asks := createBlockchainSynopsisForPeer_eq sees summary
  have lengths : (ahead ++ viewed).length = ahead.length + viewed.length := List.length_append
  have positive := List.length_pos_of_ne_nil some
  obtain ⟨block, lower, left, got, rfl, rfl, size, member, answer⟩ :=
    serverQuiescent.offered_on some room
      (show 0 < startOf client.core.lastIrreversibleBlockNum viewed by unfold startOf; omega)
      (by unfold startOf; omega)
  have linked : IsChain hashing (got ++ block :: (lower ++ viewed)) := by
    have dropped := serverQuiescent.linked.drop left.length
    rwa [List.append_assoc, List.drop_left, List.cons_append] at dropped
  have valid : answersRequest hashing (askedFor hashing client viewed (block :: lower))
      (hashing.id block :: ids hashing got) = true := answersRequest_batch linked (.inl member)
  have ends : peer.idsOfItemsToGet = ids hashing lower ++ [hashing.id block] := by
    rw [sees.offered, ids_cons]
  cases outcome : client.onBlockchainItemIdsInventoryMessage context
      (hashing.id block :: ids hashing got) left.length { peer with
        itemIdsRequestedFromPeer := Option.some (askedFor hashing client viewed (block :: lower)) }
      with
  | mk reached action =>
    have done : client.exchange context limit other peer server =
        .ok (Option.some (reached, action)) := by
      simp only [Database.exchange, Database.fetchNextBatchOfItemIdsFromPeer, asks, Except.bind,
        Database.onFetchBlockchainItemIdsMessage, answer, Except.map, outcome]
    rcases inventory_parts valid outcome with ⟨_, _, idle, _⟩ | ⟨acts, same⟩
    · rw [ends] at idle
      simp at idle
    · have merged := @mergeReceived_on _ _ _ _ hashing _ client
        { peer with itemIdsRequestedFromPeer := none } context _ (ids hashing got) _ ends
      rw [mergedPeer, merged] at same
      subst same
      refine ⟨left, got, _, action, done, ?_, rfl, size, ⟨?_, sees.top, ?_⟩, rfl, rfl, rfl⟩
      · rcases acts with ⟨_, late⟩ | acts
        · have early := punctual left.length (by rw [List.length_append]; omega)
          exact absurd late (Nat.not_lt.mpr early)
        · exact acts
      · rw [List.append_assoc]
        exact linked
      · rw [ids_append, ids_cons, List.append_assoc, List.singleton_append]

/-- So many rounds bring so many ids, as long as there are any. -/
theorem exchanges_progress {rounds : List (Round Id Tx H)}
    (serverQuiescent :
      Database.Quiescent serving origin (rest ++ (ahead ++ viewed)) serverCommitted server)
    (some : ahead ≠ []) (room : 0 < limit) (sees : Sees hashing chain peer viewed ahead)
    (counted : rest.length = peer.numberOfUnfetchedItemIds)
    (summary : ∀ after, client.getBlockchainSynopsis peer.lastBlockDelegateHasSeen after =
      .ok (summaryOf hashing (startOf client.core.lastIrreversibleBlockNum viewed) after viewed))
    (still : ∀ round ∈ rounds, round.calls = [])
    (punctual : ∀ round ∈ rounds,
      Punctual round.context peer.lastBlockTimeDelegateHasSeen rest.length) :
    ∃ left got reached,
      exchanges serving client limit rounds server peer = .ok (Option.some (server, reached)) ∧
      rest = left ++ got ∧ got.length = min (rounds.length * (limit - 1)) rest.length ∧
      Sees hashing chain reached viewed (got ++ ahead) ∧
      left.length = reached.numberOfUnfetchedItemIds := by
  induction rounds generalizing peer ahead rest with
  | nil => exact ⟨rest, [], peer, rfl, by simp, by simp, sees, counted⟩
  | cons round later inductionHypothesis =>
    obtain ⟨left, got, between, action, done, acts, rfl, size, now, last, time, number⟩ :=
      @exchange_progress _ _ _ _ _ hashing _ _ _ _ _ _ _ _ _ client server peer round.other
        round.context serverQuiescent some room sees summary (punctual round List.mem_cons_self)
    rw [List.length_append] at size
    obtain ⟨remaining, more, reached, others, rfl, further, final, count⟩ := inductionHypothesis
      (by simpa using serverQuiescent) (by simp [some]) now number.symm
      (by rw [last]; exact summary)
      (fun other member => still other (List.mem_cons_of_mem _ member))
      (fun other member remaining within => by
        rw [time]
        refine punctual other (List.mem_cons_of_mem _ member) remaining ?_
        rw [List.length_append]
        omega)
    have unmoved : Database.afterCalls serving round.calls server = server := by
      rw [still round List.mem_cons_self]
      rfl
    refine ⟨remaining, more ++ got, reached, ?_, by simp, ?_, by simpa using final, count⟩
    · rw [exchanges, exchangeAfter, unmoved, done, Except.bind]
      dsimp only
      rw [if_neg (by rcases acts with rfl | rfl <;> simp)]
      exact others
    · simp only [List.length_append, List.length_cons, Nat.succ_mul] at size further ⊢
      omega

end Progress

section Completion

variable [DecidableEq Id] {processing : Processing Id Tx H R} {genesis : R}
  {chain other : List (Block Id Tx H)} {database : Database hashing R}

/-- The objects have been reached by one chain. -/
theorem Database.AppliedChain.unique (applied : Database.AppliedChain processing genesis chain database)
    (appliedOther : Database.AppliedChain processing genesis other database) : chain = other := by
  have reached := stateAfter_reached applied
  have reachedOther := stateAfter_reached appliedOther
  exact isChain_unique reached.linked reachedOther.linked (reached.head.symm.trans reachedOther.head)

/-- When the other node stays on the chain of which it has offered some ids, a node that can
still ask has been offered all of them after so many rounds as the missing ones take. -/
theorem exchanges_complete (hashing : Hashing Id Tx H) (processing : Processing Id Tx H R)
    (genesis : R) (serving : Processing Id Tx H S) (origin : S) (limit : Nat)
    (clientCalls serverCalls : List (Database.Call Id Tx H)) (rounds : List (Round Id Tx H))
    (chain serverChain : List (Block Id Tx H)) (peer : PeerConnection Id)
    (client : Database hashing R) (server : Database hashing S) (room : 0 < limit)
    (reaches : client = Database.afterCalls processing clientCalls (Database.genesis hashing genesis))
    (serverReaches :
      server = Database.afterCalls serving serverCalls (Database.genesis hashing origin))
    (smoothClient : Database.smoothRun processing clientCalls (Database.genesis hashing genesis) = true)
    (smoothServer : Database.smoothRun serving serverCalls (Database.genesis hashing origin) = true)
    (applied : Database.AppliedChain processing genesis chain client)
    (serverApplied : Database.AppliedChain serving origin serverChain server)
    (follows : Follows hashing chain serverChain peer) (offers : peer.idsOfItemsToGet ≠ [])
    (asks : ∃ synopsis, client.createBlockchainSynopsisForPeer peer = .ok synopsis)
    (still : ∀ round ∈ rounds, round.calls = [])
    (punctual : ∀ round ∈ rounds, Punctual round.context peer.lastBlockTimeDelegateHasSeen
      peer.numberOfUnfetchedItemIds)
    (enough : peer.numberOfUnfetchedItemIds ≤ rounds.length * (limit - 1)) :
    ∃ reached above viewed,
      exchanges serving client limit rounds server peer = .ok (some (server, reached)) ∧
      serverChain = above ++ viewed ∧ Sees hashing chain reached viewed above ∧
      reached.numberOfUnfetchedItemIds = 0 := by
  obtain ⟨ownChain, _, settled, _, _⟩ :=
    Database.afterCalls_settled clientCalls (Database.settled_genesis processing genesis) smoothClient
  obtain ⟨otherChain, _, quiescent, _, _⟩ :=
    Database.afterCalls_quiescent serverCalls (Database.quiescent_genesis serving origin) smoothServer
  rw [← reaches] at settled
  rw [← serverReaches] at quiescent
  obtain rfl := applied.unique settled.quiescent.resting.anchored.tracked.lineage.replayed
  obtain rfl := serverApplied.unique quiescent.resting.anchored.tracked.lineage.replayed
  obtain ⟨viewed, ahead, rest, sees, rfl, counted⟩ := follows
  have some : ahead ≠ [] := by
    intro none
    rw [sees.offered, none] at offers
    exact offers rfl
  have summary : ∀ after, client.getBlockchainSynopsis peer.lastBlockDelegateHasSeen after =
      .ok (summaryOf hashing (startOf client.core.lastIrreversibleBlockNum viewed) after viewed) := by
    rcases settled.quiescent.getBlockchainSynopsis peer.lastBlockDelegateHasSeen with
      ⟨reference, views, summary⟩ | ⟨thrown, throws⟩
    · obtain rfl := sees.viewed_eq views
      exact summary
    · obtain ⟨synopsis, asks⟩ := asks
      rw [Database.createBlockchainSynopsisForPeer, throws] at asks
      cases asks
  obtain ⟨left, got, reached, done, rfl, size, final, count⟩ := exchanges_progress quiescent some
    room sees counted summary still (by rw [counted]; exact punctual)
  rw [List.length_append] at counted size
  have all : left = [] := List.eq_nil_of_length_eq_zero (by omega)
  refine ⟨reached, got ++ ahead, viewed, done, by simp [all], final, ?_⟩
  rw [← count, all, List.length_nil]

end Completion

/-! ## Two more batches of a longer chain -/

namespace SignedChain

/-- The blocks of a chain of one witness, newest first. -/
def aliceBlocks : Nat → List (Block (List (Entry Unit Bool)) Unit Bool)
  | 0 => []
  | length + 1 => Entry.block ("alice", [], true) (branch "alice" length []) :: aliceBlocks length

/-- The other node with four blocks. -/
def ahead : Database (Hashing.spelled Unit Bool) Unit :=
  Database.afterCalls processing (pushes "alice" [] 4) node

/-- What is offered after one batch of two ids. -/
def begun : PeerConnection (List (Entry Unit Bool)) :=
  { connection with
    lastBlockDelegateHasSeen := branch "alice" 1 []
    idsOfItemsToGet := [branch "alice" 2 []]
    numberOfUnfetchedItemIds := 2 }

/-- Two more rounds bring the other two ids. -/
theorem repeated_exchange_completes :
    ∃ reached above viewed,
      exchanges processing asking 2 [roundAfter [], roundAfter []] ahead begun =
        .ok (some (ahead, reached)) ∧
      aliceBlocks 4 = above ++ viewed ∧
      Sees (Hashing.spelled Unit Bool) (aliceBlocks 1) reached viewed above ∧
      reached.numberOfUnfetchedItemIds = 0 := by
  have sees : Sees (Hashing.spelled Unit Bool) (aliceBlocks 1) begun (aliceBlocks 1)
      [Entry.block ("alice", [], true) (branch "alice" 1 [])] :=
    ⟨⟨rfl, rfl, trivial⟩, by decide +kernel, rfl⟩
  have asks : asking.createBlockchainSynopsisForPeer begun =
      .ok [branch "alice" 1 [], branch "alice" 2 []] := ok_of_toOption (by decide +kernel)
  refine exchanges_complete (Hashing.spelled Unit Bool) processing () processing () 2
    (pushes "alice" [] 1) (pushes "alice" [] 4) [roundAfter [], roundAfter []] (aliceBlocks 1)
    (aliceBlocks 4) begun asking ahead (by decide) rfl rfl (by decide +kernel) (by decide +kernel) ?_
    ?_ ⟨_, _, (aliceBlocks 4).take 2, sees, rfl, rfl⟩ (by decide) ⟨_, asks⟩ ?_ ?_ (by decide)
  · unfold Database.AppliedChain
    decide +kernel
  · unfold Database.AppliedChain
    decide +kernel
  · simp [roundAfter]
  · intro round member remaining within
    have context : round.context = alone := by
      simp only [List.mem_cons, List.not_mem_nil, or_false, or_self] at member
      rw [member]
      rfl
    have small : remaining ≤ 2 := within
    obtain rfl | rfl | rfl : remaining = 0 ∨ remaining = 1 ∨ remaining = 2 := by omega
    all_goals
      rw [context]
      decide

end SignedChain

end DeipChain.Chain
