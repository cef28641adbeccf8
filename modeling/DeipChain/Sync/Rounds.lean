import DeipChain.Sync.Exchange

/-!
# Rounds of requests and answers

Two nodes at rest exchange ids. The answer of the other node is never refused: its ids have
consecutive numbers and go on from the synopsis. After an answer with ids the asking node either
knows the other's newest block, or what it has been offered is the lower end of the other's
chain.
-/
namespace DeipChain.Chain

open Halving

variable {Id Tx H R S : Type} {hashing : Hashing Id Tx H}

section Answers

variable {above base got below : List (Block Id Tx H)} {block : Block Id Tx H}

/-- The ids above a place of a chain have consecutive numbers. -/
theorem nums_above (linked : IsChain hashing (above ++ base)) :
    (ids hashing above).map hashing.numFromId = List.range' (base.length + 1) above.length := by
  induction above with
  | nil => rfl
  | cons block rest inductionHypothesis =>
    rw [List.cons_append] at linked
    have number : hashing.numFromId (hashing.id block) = base.length + 1 + rest.length := by
      rw [hashing.numFromId_id, ← Hashing.num, num_of_chain linked, List.length_append]
      omega
    rw [ids_cons, List.map_append, inductionHypothesis linked.2, List.map_singleton, number,
      List.length_cons, List.range'_1_concat]

variable [DecidableEq Id]

/-- A batch of a chain is a valid answer. -/
theorem answersRequest_batch {synopsis : List Id} (linked : IsChain hashing (got ++ block :: below))
    (meets : hashing.id block ∈ synopsis ∨ synopsis = [] ∧ below = []) :
    answersRequest hashing synopsis (hashing.id block :: ids hashing got) = true := by
  have first : hashing.numFromId (hashing.id block) = below.length + 1 := num_of_below linked
  have nums := nums_above linked
  rw [List.length_cons] at nums
  rw [answersRequest, decide_eq_true_eq]
  refine ⟨?_, ?_⟩
  · rw [List.map_cons, nums, first, ids_length, List.range'_succ]
  · rcases meets with member | ⟨rfl, rfl⟩
    · rw [if_neg (List.ne_nil_of_mem member)]
      exact member
    · rw [if_pos rfl, first]
      rfl

end Answers

section Servers

variable [DecidableEq Id] {serving : Processing Id Tx H S} {origin : S}
  {serverChain known : List (Block Id Tx H)} {committed limit irreversible : Nat}
  {server : Database hashing S}

/-- Whether a chain has something to offer to a synopsis. -/
def Offers (hashing : Hashing Id Tx H) (serverChain : List (Block Id Tx H)) (synopsis : List Id) :
    Prop :=
  serverChain ≠ [] ∧ sharedHeight hashing serverChain synopsis ≠ none

/-- The parts of the answering node's chain: what is below the last shared block, that block, the
blocks offered above it, and the rest. -/
structure Offered (hashing : Hashing Id Tx H) (serverChain known : List (Block Id Tx H))
    (synopsis : List Id) (limit : Nat) (rest got : List (Block Id Tx H)) (block : Block Id Tx H)
    (below : List (Block Id Tx H)) : Prop where
  whole : serverChain = rest ++ (got ++ block :: below)
  linked : IsChain hashing (got ++ block :: below)
  size : got.length = min (limit - 1) (rest ++ got).length
  meets : (∃ above, known = above ++ block :: below) ∧ hashing.id block ∈ synopsis ∨
    known = [] ∧ below = [] ∧ synopsis = []

/-- A node at rest offers a batch of its chain, or there is nothing to offer. -/
theorem Database.Quiescent.offered
    (quiescent : Database.Quiescent serving origin serverChain committed server)
    (linked : IsChain hashing known) (room : 0 < limit) {low : Nat}
    (within : known = [] ∨ 0 < low ∧ low ≤ known.length) :
    (¬ Offers hashing serverChain (summaryOf hashing low 0 known) ∧
      (server.getBlockIds (summaryOf hashing low 0 known) limit = .ok ([], 0) ∨
        server.getBlockIds (summaryOf hashing low 0 known) limit = .error .unreachableFork)) ∨
    Offers hashing serverChain (summaryOf hashing low 0 known) ∧
    ∃ rest got block below,
      Offered hashing serverChain known (summaryOf hashing low 0 known) limit rest got block below ∧
      server.getBlockIds (summaryOf hashing low 0 known) limit =
        .ok (hashing.id block :: ids hashing got, rest.length) := by
  have serverLinked := quiescent.linked
  rw [quiescent.getBlockIds]
  by_cases bare : serverChain = []
  · exact .inl ⟨fun offers => offers.1 bare, .inl (if_pos bare)⟩
  · rw [if_neg bare]
    cases shared : sharedHeight hashing serverChain (summaryOf hashing low 0 known) with
    | none => exact .inl ⟨fun offers => offers.2 shared, .inr rfl⟩
    | some height =>
      refine .inr ⟨⟨bare, by rw [shared]; simp⟩, ?_⟩
      rcases sharedHeight_some linked serverLinked within shared with
        ⟨rfl, rfl⟩ | ⟨aboveKnown, above, block, below, rfl, rfl, rfl, member⟩
      · -- a request for everything is answered from the first block on
        obtain ⟨above, block, rfl⟩ : ∃ above block, serverChain = above ++ [block] :=
          ⟨_, _, (List.dropLast_concat_getLast bare).symm⟩
        obtain ⟨rest, got, rfl, size, answer⟩ := @batch_parts _ _ _ hashing above [] block limit room
        have start : batch (ids hashing ((rest ++ got) ++ [block])) 0 limit =
            batch (ids hashing ((rest ++ got) ++ [block])) 1 limit := rfl
        refine ⟨rest, got, block, [], ⟨by simp, ?_, size, .inr ⟨rfl, rfl, summaryOf_nil _ _⟩⟩, ?_⟩
        · have lower := serverLinked.drop rest.length
          rwa [List.append_assoc, List.drop_left] at lower
        · exact congrArg Except.ok (start.trans answer)
      · obtain ⟨rest, got, rfl, size, answer⟩ :=
          @batch_parts _ _ _ hashing above below block limit room
        refine ⟨rest, got, block, below, ⟨by simp, ?_, size, .inl ⟨⟨aboveKnown, rfl⟩, member⟩⟩, ?_⟩
        · have lower := serverLinked.drop rest.length
          rwa [List.append_assoc, List.drop_left] at lower
        · exact congrArg Except.ok answer

end Servers

/-! ## One round -/

section Rounds

variable [DecidableEq Id] {processing : Processing Id Tx H R} {genesis : R}
  {serving : Processing Id Tx H S} {origin : S}
  {chain serverChain viewed ahead rest got below : List (Block Id Tx H)} {block : Block Id Tx H}
  {committed serverCommitted limit : Nat} {client : Database hashing R}
  {server : Database hashing S} {peer reached other : PeerConnection Id} {action : SyncAction}
  {context : SyncContext Id}

/-- What a node asks for when it sees the chain of a peer. -/
abbrev askedFor (hashing : Hashing Id Tx H) (client : Database hashing R)
    (viewed ahead : List (Block Id Tx H)) : List Id :=
  summaryOf hashing (startOf client.core.lastIrreversibleBlockNum viewed) 0 (ahead ++ viewed)

/-- The blocks up to a reference point are known. -/
theorem Database.Settled.known_of_viewed
    (settled : Database.Settled processing genesis chain committed client)
    (views : Database.Viewed chain peer.lastBlockDelegateHasSeen client viewed) :
    ∀ block ∈ viewed, client.isKnownBlock (hashing.id block) = true := by
  obtain ⟨upper, above, base, rfl, rfl, _, alive⟩ := views.fork
  intro block member
  rcases List.mem_append.mp member with inFork | onChain
  · obtain ⟨item, held, rfl⟩ := alive block inFork
    exact settled.known_of_alive held
  · exact settled.quiescent.isKnownBlock
      (mem_ids.mpr ⟨block, List.mem_append_right _ onChain, rfl⟩)

/-- What an answered request leads to. -/
theorem exchange_done (quiescent : Database.Quiescent processing genesis chain committed client)
    (sees : Sees hashing chain peer viewed ahead)
    (done : client.exchange context limit other peer server = .ok (some (reached, action))) :
    Database.Viewed chain peer.lastBlockDelegateHasSeen client viewed ∧
      ∃ available remaining,
        (server.getBlockIds (askedFor hashing client viewed ahead) limit =
            .ok (available, remaining) ∨
          server.getBlockIds (askedFor hashing client viewed ahead) limit =
            .error .unreachableFork ∧ available = [] ∧ remaining = 0) ∧
        client.onBlockchainItemIdsInventoryMessage context available remaining
            { peer with itemIdsRequestedFromPeer := some (askedFor hashing client viewed ahead) } =
          (reached, action) := by
  rcases quiescent.createBlockchainSynopsisForPeer sees with ⟨views, asks⟩ | ⟨thrown, throws⟩
  · refine ⟨views, ?_⟩
    simp only [Database.exchange, Database.fetchNextBatchOfItemIdsFromPeer, asks, Except.bind,
      Database.onFetchBlockchainItemIdsMessage] at done
    cases answer : server.getBlockIds (askedFor hashing client viewed ahead) limit with
    | ok batch =>
      rw [answer] at done
      exact ⟨batch.1, batch.2, .inl rfl, Option.some.inj (Except.ok.inj done)⟩
    | error thrown =>
      rw [answer] at done
      cases thrown with
      | unreachableFork => exact ⟨[], 0, .inr ⟨rfl, rfl, rfl⟩, Option.some.inj (Except.ok.inj done)⟩
      | unknownHeight => cases done
      | branchMissing => cases done
      | olderThanUndoHistory => cases done
  · simp only [Database.exchange, Database.fetchNextBatchOfItemIdsFromPeer, throws] at done
    cases thrown <;> simp [Except.bind] at done

/-- The peer after an answer that is merged with what has been offered before. -/
abbrev mergedPeer (context : SyncContext Id) (available : List Id) (remaining : Nat)
    (peer : PeerConnection Id) (client : Database hashing R) : PeerConnection Id :=
  { (client.mergeReceived context available peer).1 with
    idsOfItemsToGet := (client.mergeReceived context available peer).1.idsOfItemsToGet ++
      (client.mergeReceived context available peer).2
    numberOfUnfetchedItemIds := remaining }

/-- A valid answer is the end of the synchronization, or it is merged with what has been offered
before. -/
theorem inventory_parts {synopsis available : List Id} {remaining : Nat}
    (answers : answersRequest hashing synopsis available = true)
    (handled : client.onBlockchainItemIdsInventoryMessage context available remaining
      { peer with itemIdsRequestedFromPeer := some synopsis } = (reached, action)) :
    (remaining = 0 ∧ (available = [] ∨
        available.length = 1 ∧ ∀ id ∈ available, client.isKnownBlock id = true) ∧
      peer.idsOfItemsToGet = [] ∧ action = .enterNormalOperation ∧
      reached.idsOfItemsToGet = peer.idsOfItemsToGet ∧
      reached.lastBlockDelegateHasSeen = peer.lastBlockDelegateHasSeen) ∨
    (action = .disconnectUntimely ∧
        timePointSec (reached.lastBlockTimeDelegateHasSeen +
            timePointSec (remaining * syncBlockInterval)) >
          timePointSec (context.blockchainNow + futureSyncBlocksGracePeriodSec) ∨
        action = .fetchSyncItems ∨ action = .fetchNextBatch) ∧
      reached = mergedPeer context available remaining
        { peer with itemIdsRequestedFromPeer := none } client := by
  rw [Database.onBlockchainItemIdsInventoryMessage] at handled
  dsimp only at handled
  rw [if_pos answers] at handled
  split at handled
  · rename_i finished
    cases handled
    exact .inl ⟨finished.1, finished.2.1, finished.2.2.1, rfl, rfl, rfl⟩
  · split at handled
    · rename_i late
      cases handled
      exact .inr ⟨.inl ⟨rfl, late⟩, rfl⟩
    · split at handled
      · split at handled
        · cases handled
          exact .inr ⟨.inr (.inl rfl), rfl⟩
        · cases handled
          exact .inr ⟨.inr (.inr rfl), rfl⟩
      · split at handled
        · cases handled
          exact .inr ⟨.inr (.inl rfl), rfl⟩
        · cases handled
          exact .inr ⟨.inr (.inr rfl), rfl⟩

/-- The answer of a node at rest is taken. After one with ids the asking node knows the newest
block of the other chain, or what it has been offered is the lower end of that chain. -/
theorem exchange_follows (settled : Database.Settled processing genesis chain committed client)
    (serverQuiescent : Database.Quiescent serving origin serverChain serverCommitted server)
    (fresh : ∀ id, context.isFirstItemForOtherPeer id = true → client.isKnownBlock id = false)
    (room : 0 < limit) (sees : Sees hashing chain peer viewed ahead)
    (done : client.exchange context limit other peer server = .ok (some (reached, action))) :
    action ≠ .ignore ∧ action ≠ .disconnectInvalid ∧
    ((¬ Offers hashing serverChain (askedFor hashing client viewed ahead) ∧
        reached.idsOfItemsToGet = peer.idsOfItemsToGet ∧
        reached.lastBlockDelegateHasSeen = peer.lastBlockDelegateHasSeen) ∨
      (action = .enterNormalOperation ∧ reached.idsOfItemsToGet = peer.idsOfItemsToGet ∧
        reached.lastBlockDelegateHasSeen = peer.lastBlockDelegateHasSeen ∧
        ∃ head tail, serverChain = head :: tail ∧
          client.isKnownBlock (hashing.id head) = true) ∨
      Follows hashing chain serverChain reached) := by
  obtain ⟨views, available, remaining, answer, handled⟩ :=
    exchange_done settled.quiescent sees done
  have within : ahead ++ viewed = [] ∨
      0 < startOf client.core.lastIrreversibleBlockNum viewed ∧
        startOf client.core.lastIrreversibleBlockNum viewed ≤ (ahead ++ viewed).length := by
    rcases List.eq_nil_or_concat (ahead ++ viewed) with none | some
    · exact .inl none
    · right
      have positive : 0 < (ahead ++ viewed).length := by
        obtain ⟨_, _, same⟩ := some
        rw [same]
        simp
      rw [List.length_append] at positive ⊢
      unfold startOf
      omega
  rcases serverQuiescent.offered sees.linked room within with
    ⟨nothing, batch⟩ | ⟨_, rest, got, block, below, offer, batch⟩
  · -- there is nothing to offer
    have empty : available = [] ∧ remaining = 0 := by
      rcases batch with batch | batch
      · rcases answer with answer | ⟨answer, _⟩
        · have same := batch.symm.trans answer
          cases same
          exact ⟨rfl, rfl⟩
        · cases batch.symm.trans answer
      · rcases answer with answer | ⟨_, rfl, rfl⟩
        · cases batch.symm.trans answer
        · exact ⟨rfl, rfl⟩
    obtain ⟨rfl, rfl⟩ := empty
    rcases inventory_parts rfl handled with ⟨_, _, _, rfl, kept, last⟩ | ⟨acts, rfl⟩
    · exact ⟨by decide, by decide, .inl ⟨nothing, kept, last⟩⟩
    · refine ⟨?_, ?_, .inl ⟨nothing, List.append_nil _, rfl⟩⟩ <;>
        (rintro rfl; simp at acts)
  · have same : available = hashing.id block :: ids hashing got ∧ remaining = rest.length := by
      rcases answer with answer | ⟨answer, _⟩
      · have same := batch.symm.trans answer
        cases same
        exact ⟨rfl, rfl⟩
      · cases batch.symm.trans answer
    obtain ⟨rfl, rfl⟩ := same
    have valid : answersRequest hashing (askedFor hashing client viewed ahead)
        (hashing.id block :: ids hashing got) = true := by
      refine answersRequest_batch offer.linked ?_
      rcases offer.meets with ⟨_, member⟩ | ⟨_, bare, none⟩
      · exact .inl member
      · exact .inr ⟨none, bare⟩
    rcases inventory_parts valid handled with
      ⟨last, known, idle, rfl, kept, seen⟩ | ⟨acts, rfl⟩
    · refine ⟨by decide, by decide, .inr (.inl ⟨rfl, kept, seen, ?_⟩)⟩
      -- the last block of the chain is the only one offered
      rcases known with none | ⟨single, known⟩
      · cases none
      · have alone : got = [] := by
          simpa using single
        have end_ : rest = [] := List.eq_nil_of_length_eq_zero last
        refine ⟨block, below, by rw [offer.whole, alone, end_]; rfl,
          known _ List.mem_cons_self⟩
    · refine ⟨?_, ?_, .inr (.inr ?_)⟩
      · rintro rfl
        simp at acts
      · rintro rfl
        simp at acts
      · have meets : (∃ above, ahead ++ viewed = above ++ block :: below) ∨
            ahead ++ viewed = [] ∧ below = [] := by
          rcases offer.meets with ⟨meets, _⟩ | ⟨none, bare, _⟩
          · exact .inl meets
          · exact .inr ⟨none, bare⟩
        have unasked : Sees hashing chain { peer with itemIdsRequestedFromPeer := none } viewed
            ahead := ⟨sees.linked, sees.top, sees.offered⟩
        obtain ⟨viewedNow, aheadNow, whole, now⟩ := mergeReceived_sees unasked
          (settled.known_of_viewed views) fresh offer.linked meets rest.length
        exact ⟨viewedNow, aheadNow, rest, now, by rw [whole, offer.whole], rfl⟩

end Rounds

/-! ## Runs of rounds -/

/-- What the other node does before it answers, and what is read on both sides then. -/
structure Round (Id Tx H : Type) where
  calls : List (Database.Call Id Tx H)
  context : SyncContext Id
  other : PeerConnection Id

section Runs

variable [DecidableEq Id]

/-- A connection on which `start_synchronizing_with_peer` is called. -/
def startOfSync (hashing : Hashing Id Tx H) (context : SyncContext Id)
    (peer : PeerConnection Id) : PeerConnection Id :=
  { peer with
    idsOfItemsToGet := []
    numberOfUnfetchedItemIds := 0
    weNeedSyncItemsFromPeer := true
    lastBlockDelegateHasSeen := hashing.null
    lastBlockTimeDelegateHasSeen := context.getBlockTime hashing.null
    inhibitFetchingSyncBlocks := false }

/-- A round with the other node's calls before it. -/
def exchangeAfter (serving : Processing Id Tx H S) (client : Database hashing R) (limit : Nat)
    (round : Round Id Tx H) (server : Database hashing S) (peer : PeerConnection Id) :
    Except SyncError (Option (PeerConnection Id × SyncAction)) :=
  client.exchange round.context limit round.other peer
    (Database.afterCalls serving round.calls server)

/-- Rounds one after the other, until the node disconnects. -/
def exchanges (serving : Processing Id Tx H S) (client : Database hashing R) (limit : Nat) :
    List (Round Id Tx H) → Database hashing S → PeerConnection Id →
      Except SyncError (Option (Database hashing S × PeerConnection Id))
  | [], server, peer => .ok (some (server, peer))
  | round :: rest, server, peer =>
    (exchangeAfter serving client limit round server peer).bind (fun outcome =>
      match outcome with
      | none => .ok none
      | some (reached, action) =>
        if action = .disconnectInvalid ∨ action = .disconnectUntimely then .ok none
        else
          exchanges serving client limit rest (Database.afterCalls serving round.calls server)
            reached)

variable {processing : Processing Id Tx H R} {genesis : R} {serving : Processing Id Tx H S}
  {origin : S} {chain serverChain viewed ahead : List (Block Id Tx H)}
  {committed serverCommitted limit : Nat} {client : Database hashing R}
  {server later : Database hashing S} {peer reached : PeerConnection Id}

/-- Whatever happens in the rounds, the node sees the lower end of some chain. -/
theorem exchanges_sees {rounds : List (Round Id Tx H)} {more : List (Database.Call Id Tx H)}
    (settled : Database.Settled processing genesis chain committed client)
    (quiescent : Database.Quiescent serving origin serverChain serverCommitted server)
    (smoothly : Database.smoothRun serving (rounds.flatMap Round.calls ++ more) server = true)
    (fresh : ∀ round ∈ rounds, ∀ id, round.context.isFirstItemForOtherPeer id = true →
      client.isKnownBlock id = false)
    (room : 0 < limit) (sees : Sees hashing chain peer viewed ahead)
    (done : exchanges serving client limit rounds server peer = .ok (some (later, reached))) :
    Database.smoothRun serving more later = true ∧
      later = Database.afterCalls serving (rounds.flatMap Round.calls) server ∧
      ∃ viewedNow aheadNow, Sees hashing chain reached viewedNow aheadNow := by
  induction rounds generalizing server peer serverChain serverCommitted viewed ahead with
  | nil =>
    cases done
    exact ⟨smoothly, rfl, viewed, ahead, sees⟩
  | cons round rest inductionHypothesis =>
    rw [List.flatMap_cons, List.append_assoc, Database.smoothRun_append, Bool.and_eq_true]
      at smoothly
    obtain ⟨first, others⟩ := smoothly
    obtain ⟨next, raised, moved, _, _⟩ := Database.afterCalls_quiescent round.calls quiescent first
    rw [exchanges] at done
    cases outcome : exchangeAfter serving client limit round server peer with
    | error thrown =>
      rw [outcome] at done
      cases done
    | ok answered =>
      rw [outcome, Except.bind] at done
      cases answered with
      | none => cases done
      | some answered =>
        obtain ⟨between, action⟩ := answered
        dsimp only at done
        split at done
        · cases done
        · have step := exchange_follows settled moved (fresh round List.mem_cons_self) room sees outcome
          have seen : ∃ viewedNow aheadNow, Sees hashing chain between viewedNow aheadNow := by
            rcases step.2.2 with ⟨_, kept, last⟩ | ⟨_, kept, last, _⟩ | ⟨now, up, _, follows, _⟩
            · exact ⟨viewed, ahead, sees.linked, last ▸ sees.top, kept ▸ sees.offered⟩
            · exact ⟨viewed, ahead, sees.linked, last ▸ sees.top, kept ▸ sees.offered⟩
            · exact ⟨now, up, follows⟩
          obtain ⟨viewedNow, aheadNow, now⟩ := seen
          obtain ⟨smooth, same, found⟩ := inductionHypothesis moved others
            (fun other member => fresh other (List.mem_cons_of_mem _ member)) now done
          refine ⟨smooth, ?_, found⟩
          rw [same, List.flatMap_cons, Database.afterCalls_append]

/-- In every exchange that starts with a new synchronization, whatever the other node does
between the requests, its answer is taken. After one with ids the asking node knows the newest
block of the chain the other node has then, or what it has been offered is the lower end of that
chain. -/
theorem exchanges_follow (hashing : Hashing Id Tx H) (processing : Processing Id Tx H R)
    (genesis : R) (serving : Processing Id Tx H S) (origin : S) (limit : Nat)
    (clientCalls : List (Database.Call Id Tx H)) (rounds : List (Round Id Tx H))
    (last : Round Id Tx H) (context : SyncContext Id) (peer between reached : PeerConnection Id)
    (later : Database hashing S) (action : SyncAction) (room : 0 < limit)
    (client : Database hashing R)
    (reaches : client = Database.afterCalls processing clientCalls (Database.genesis hashing genesis))
    (smoothClient : Database.smoothRun processing clientCalls (Database.genesis hashing genesis) = true)
    (smoothServer : Database.smoothRun serving (rounds.flatMap Round.calls ++ last.calls)
      (Database.genesis hashing origin) = true)
    (fresh : ∀ round ∈ rounds ++ [last], ∀ id, round.context.isFirstItemForOtherPeer id = true →
      client.isKnownBlock id = false)
    (before : exchanges serving client limit rounds (Database.genesis hashing origin)
      (startOfSync hashing context peer) = .ok (some (later, between)))
    (answered : exchangeAfter serving client limit last later between =
      .ok (some (reached, action))) :
    ∃ chain serverChain viewed ahead, Database.AppliedChain processing genesis chain client ∧
      Database.AppliedChain serving origin serverChain (Database.afterCalls serving last.calls later) ∧
      Sees hashing chain between viewed ahead ∧
      action ≠ .ignore ∧ action ≠ .disconnectInvalid ∧
      (¬ Offers hashing serverChain (askedFor hashing client viewed ahead) ∨
        (action = .enterNormalOperation ∧ ∃ head tail, serverChain = head :: tail ∧
          client.isKnownBlock (hashing.id head) = true) ∨
        Follows hashing chain serverChain reached) := by
  obtain ⟨chain, committed, settled, _, _⟩ :=
    Database.afterCalls_settled clientCalls (Database.settled_genesis processing genesis) smoothClient
  rw [← reaches] at settled
  have start : Sees hashing chain (startOfSync hashing context peer) chain [] :=
    ⟨settled.quiescent.linked, (if_pos rfl).symm, rfl⟩
  obtain ⟨smoothly, same, viewed, ahead, sees⟩ := exchanges_sees settled
    (Database.quiescent_genesis serving origin) smoothServer
    (fun round member => fresh round (List.mem_append_left _ member)) room start before
  have earlier := smoothServer
  rw [Database.smoothRun_append, Bool.and_eq_true] at earlier
  obtain ⟨middle, _, quiescent, _, _⟩ := Database.afterCalls_quiescent (rounds.flatMap Round.calls)
    (Database.quiescent_genesis serving origin) earlier.1
  rw [← same] at quiescent
  obtain ⟨serverChain, _, final, _, _⟩ := Database.afterCalls_quiescent last.calls quiescent smoothly
  obtain ⟨heard, valid, outcome⟩ := exchange_follows settled final
    (fresh last (List.mem_append_right _ List.mem_cons_self)) room sees answered
  refine ⟨chain, serverChain, viewed, ahead,
    settled.quiescent.resting.anchored.tracked.lineage.replayed,
    final.resting.anchored.tracked.lineage.replayed, sees, heard, valid, ?_⟩
  rcases outcome with ⟨nothing, _⟩ | ⟨normal, _, _, known⟩ | follows
  · exact .inl nothing
  · exact .inr (.inl ⟨normal, known⟩)
  · exact .inr (.inr follows)

end Runs

/-!
## A peer that switches forks

The asking node has one block. The other node has offered the next one when it switches to a
branch of another witness.
-/

namespace SignedChain

instance decidableConnection : DecidableEq (PeerConnection (List (Entry Unit Bool))) :=
  inferInstance

/-- A new connection. -/
def connection : PeerConnection (List (Entry Unit Bool)) where
  lastBlockDelegateHasSeen := []
  lastBlockTimeDelegateHasSeen := 0
  idsOfItemsToGet := []
  numberOfUnfetchedItemIds := 0
  itemIdsRequestedFromPeer := none
  weNeedSyncItemsFromPeer := true
  peerNeedsSyncItemsFromUs := false
  inhibitFetchingSyncBlocks := false

/-- No other peers, and all times are 0. -/
def alone : SyncContext (List (Entry Unit Bool)) where
  isFirstItemForOtherPeer _ := false
  getBlockTime _ := 0
  blockchainNow := 0

/-- A round after some calls. -/
def roundAfter (calls : List (Database.Call (List (Entry Unit Bool)) Unit Bool)) :
    Round (List (Entry Unit Bool)) Unit Bool :=
  ⟨calls, alone, connection⟩

/-- The asking node with one block. -/
def asking : Database (Hashing.spelled Unit Bool) Unit :=
  Database.afterCalls processing (pushes "alice" [] 1) node

/-- The other node with one more. -/
def answering : Database (Hashing.spelled Unit Bool) Unit :=
  Database.afterCalls processing (pushes "alice" [] 2) node

/-- The switch to a longer branch. -/
def switching : List (Database.Call (List (Entry Unit Bool)) Unit Bool) :=
  pushes "bob" (branch "alice" 1 []) 2

/-- What is offered before the switch. -/
def before : PeerConnection (List (Entry Unit Bool)) :=
  { connection with
    lastBlockDelegateHasSeen := branch "alice" 1 []
    idsOfItemsToGet := [branch "alice" 2 []] }

/-- What is offered after it. -/
def after : PeerConnection (List (Entry Unit Bool)) :=
  { connection with
    lastBlockDelegateHasSeen := branch "alice" 1 []
    idsOfItemsToGet := [branch "bob" 1 (branch "alice" 1 []), branch "bob" 2 (branch "alice" 1 [])] }

/-- The offered block is given up for those of the other branch. -/
theorem switched_exchange_follows :
    exchangeAfter processing asking 10 (roundAfter switching) answering before =
        .ok (some (after, .fetchSyncItems)) ∧
      ∃ chain serverChain viewed ahead, Database.AppliedChain processing () chain asking ∧
        Database.AppliedChain processing () serverChain
          (Database.afterCalls processing switching answering) ∧
        Sees (Hashing.spelled Unit Bool) chain before viewed ahead ∧
        SyncAction.fetchSyncItems ≠ .ignore ∧ SyncAction.fetchSyncItems ≠ .disconnectInvalid ∧
        (¬ Offers (Hashing.spelled Unit Bool) serverChain
            (askedFor (Hashing.spelled Unit Bool) asking viewed ahead) ∨
          (SyncAction.fetchSyncItems = .enterNormalOperation ∧
            ∃ head tail, serverChain = head :: tail ∧
              asking.isKnownBlock ((Hashing.spelled Unit Bool).id head) = true) ∨
          Follows (Hashing.spelled Unit Bool) chain serverChain after) := by
  have answered : exchangeAfter processing asking 10 (roundAfter switching) answering before =
      .ok (some (after, .fetchSyncItems)) := ok_of_toOption (by decide +kernel)
  have first : exchangeAfter processing asking 10 (roundAfter (pushes "alice" [] 2)) node
      (startOfSync (Hashing.spelled Unit Bool) alone connection) =
        .ok (some (before, .fetchSyncItems)) := ok_of_toOption (by decide +kernel)
  have rounds : exchanges processing asking 10 [roundAfter (pushes "alice" [] 2)] node
      (startOfSync (Hashing.spelled Unit Bool) alone connection) = .ok (some (answering, before)) := by
    rw [exchanges, first]
    rfl
  refine ⟨answered, exchanges_follow (Hashing.spelled Unit Bool) processing () processing () 10
    (pushes "alice" [] 1) [roundAfter (pushes "alice" [] 2)] (roundAfter switching) alone connection
    before after answering .fetchSyncItems (by decide) asking rfl (by decide +kernel)
    (by decide +kernel) ?_ rounds answered⟩
  intro round member id waiting
  simp only [List.cons_append, List.nil_append, List.mem_cons, List.not_mem_nil, or_false] at member
  rcases member with rfl | rfl <;> cases waiting

end SignedChain

end DeipChain.Chain
