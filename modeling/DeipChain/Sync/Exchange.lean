import DeipChain.Sync.Shared

/-!
# Following a peer's chain

The asking node keeps the chain up to a reference point, which it has, and the ids that the peer
has offered above it. Every answer makes this the lower end of the chain that the peer had when
it answered, however the peer has switched forks in the meantime, because two chains with a
common id are the same below it. When the peer stays on its chain, the ids that are still
missing get fewer with every answer until none is left.
-/
namespace DeipChain.Chain

open Halving

variable {Id Tx H R S : Type} {hashing : Hashing Id Tx H}

/-- What a node with a chain of its own knows of a peer's chain: the chain up to the reference
point, and above it the ids that the peer has offered. -/
structure Sees [DecidableEq Id] (hashing : Hashing Id Tx H) (chain : List (Block Id Tx H))
    (peer : PeerConnection Id) (viewed ahead : List (Block Id Tx H)) : Prop where
  linked : IsChain hashing (ahead ++ viewed)
  top : tip hashing viewed =
    if peer.lastBlockDelegateHasSeen = hashing.null then tip hashing chain
    else peer.lastBlockDelegateHasSeen
  offered : peer.idsOfItemsToGet = ids hashing ahead

/-- What is offered is the lower end of a chain, and the rest of it is counted. -/
def Follows [DecidableEq Id] (hashing : Hashing Id Tx H) (chain serverChain : List (Block Id Tx H))
    (peer : PeerConnection Id) : Prop :=
  ∃ viewed ahead rest, Sees hashing chain peer viewed ahead ∧
    serverChain = rest ++ (ahead ++ viewed) ∧ rest.length = peer.numberOfUnfetchedItemIds

namespace Database

variable [DecidableEq Id]

/-- One round of the exchange: a request, the answer of the other node, which has a connection
of its own, and what becomes of the answer. There is none when the node disconnects. -/
def exchange (context : SyncContext Id) (limit : Nat) (other peer : PeerConnection Id)
    (client : Database hashing R) (server : Database hashing S) :
    Except SyncError (Option (PeerConnection Id × SyncAction)) :=
  (client.fetchNextBatchOfItemIdsFromPeer peer).bind (fun asking =>
    match asking.2 with
    | none => .ok none
    | some synopsis =>
      (server.onFetchBlockchainItemIdsMessage synopsis limit other).map (fun reply =>
        some (client.onBlockchainItemIdsInventoryMessage context reply.itemHashesAvailable
          reply.totalRemainingItemCount asking.1)))

end Database

/-! ## The request -/

section Requests

variable [DecidableEq Id] {processing : Processing Id Tx H R} {genesis : R}
  {chain viewed ahead : List (Block Id Tx H)} {committed : Nat} {client : Database hashing R}
  {peer : PeerConnection Id}

theorem Sees.lower (sees : Sees hashing chain peer viewed ahead) : IsChain hashing viewed := by
  have dropped := sees.linked.drop ahead.length
  rwa [List.drop_left] at dropped

/-- The chain below the offered ids is the one up to the reference point. -/
theorem Sees.viewed_eq (sees : Sees hashing chain peer viewed ahead)
    {reference : List (Block Id Tx H)}
    (views : Database.Viewed chain peer.lastBlockDelegateHasSeen client reference) :
    reference = viewed :=
  isChain_unique views.linked sees.lower (views.top.trans sees.top.symm)

/-- The two parts of a synopsis make one climb through the known chain and the offered ids. -/
theorem createBlockchainSynopsisForPeer_eq (sees : Sees hashing chain peer viewed ahead)
    {irreversible : Nat}
    (summary : ∀ after, client.getBlockchainSynopsis peer.lastBlockDelegateHasSeen after =
      .ok (summaryOf hashing (startOf irreversible viewed) after viewed)) :
    client.createBlockchainSynopsisForPeer peer =
      .ok (summaryOf hashing (startOf irreversible viewed) 0 (ahead ++ viewed)) := by
  rw [Database.createBlockchainSynopsisForPeer, summary, Except.map, sees.offered]
  congr 1
  cases offered : ids hashing ahead with
  | nil =>
    have none : ahead = [] := ids_eq_nil.mp offered
    subst none
    rfl
  | cons first rest =>
    have length : ahead.length = rest.length + 1 := by
      rw [← @ids_length _ _ _ hashing ahead, offered, List.length_cons]
    have some : ahead ++ viewed ≠ [] := by
      intro none
      rw [(List.append_eq_nil_iff.mp none).1] at length
      cases length
    have firstNum : hashing.numFromId first = viewed.length + 1 := by
      have found := num_idAt sees.linked (Nat.succ_pos viewed.length)
        (by rw [List.length_append]; omega)
      have first : viewed.length.succ - viewed.length = 1 := by omega
      rw [idAt_append_above (Nat.lt_succ_self _), first, idAt, offered] at found
      exact found.1
    have trueHigh : viewed.length + 1 + rest.length = (ahead ++ viewed).length := by
      rw [List.length_append]
      omega
    have upper : ∀ low, ((climb (ahead ++ viewed).length (ahead ++ viewed).length low).filter
        (fun num => viewed.length + 1 ≤ num)).map
          (fun num => idAt hashing (ids hashing ahead) (num - (viewed.length + 1) + 1)) =
        ((climb (ahead ++ viewed).length (ahead ++ viewed).length low).filter
          (fun num => viewed.length < num)).map (idAt hashing (ids hashing (ahead ++ viewed))) := by
      intro low
      refine List.map_congr_left (fun num member => ?_)
      have above := (List.mem_filter.mp member).2
      rw [decide_eq_true_eq] at above
      rw [idAt_append_above above]
      congr 1
      omega
    dsimp only
    rw [firstNum, trueHigh, List.length_cons, ← offered]
    by_cases bare : viewed = []
    · subst bare
      have start : startOf irreversible ([] : List (Block Id Tx H)) = 1 := by simp [startOf]
      rw [summaryOf_nil, List.nil_append, lowestNum, upper, climb_above (by simp), start, summaryOf,
        if_neg some, Nat.add_zero]
    · obtain ⟨positive, within⟩ := @startOf_bounds _ _ _ viewed irreversible bare
      have whole : viewed.length + (rest.length + 1) = (ahead ++ viewed).length := by
        rw [List.length_append]
        omega
      have lowest : lowestNum hashing (summaryOf hashing (startOf irreversible viewed)
          (rest.length + 1) viewed) = startOf irreversible viewed := by
        rw [summaryOf, if_neg bare, climb_eq]
        exact (num_idAt sees.lower positive within).1
      rw [lowest, upper, summaryOf, if_neg bare, summaryOf, if_neg some, Nat.add_zero, whole]
      have lowerIds : (climb (ahead ++ viewed).length viewed.length (startOf irreversible viewed)).map
          (idAt hashing (ids hashing viewed)) =
        (climb (ahead ++ viewed).length viewed.length (startOf irreversible viewed)).map
          (idAt hashing (ids hashing (ahead ++ viewed))) := by
        refine List.map_congr_left (fun num member => ?_)
        have bounds := climb_bounds within member
        rw [idAt_append (by omega) bounds.2]
      rw [lowerIds, ← List.map_append, climb_split within (by omega)]
      rfl

/-- A node at rest asks with a synopsis of what it knows of the peer's chain, or there is an
exception. -/
theorem Database.Quiescent.createBlockchainSynopsisForPeer
    (quiescent : Database.Quiescent processing genesis chain committed client)
    (sees : Sees hashing chain peer viewed ahead) :
    (Database.Viewed chain peer.lastBlockDelegateHasSeen client viewed ∧
      client.createBlockchainSynopsisForPeer peer =
        .ok (summaryOf hashing (startOf client.core.lastIrreversibleBlockNum viewed) 0
          (ahead ++ viewed))) ∨
    ∃ thrown, client.createBlockchainSynopsisForPeer peer = .error thrown := by
  rcases quiescent.getBlockchainSynopsis peer.lastBlockDelegateHasSeen with
    ⟨reference, views, summary⟩ | ⟨thrown, throws⟩
  · obtain rfl := sees.viewed_eq views
    exact .inl ⟨views, createBlockchainSynopsisForPeer_eq sees summary⟩
  · refine .inr ⟨thrown, ?_⟩
    rw [Database.createBlockchainSynopsisForPeer, throws]
    rfl

end Requests

/-! ## The answer -/

section Merging

variable [DecidableEq Id] {chain viewed ahead got below : List (Block Id Tx H)}
  {block : Block Id Tx H} {client : Database hashing R} {peer : PeerConnection Id}
  {context : SyncContext Id}

/-- The flushed ids are known, the first one left is not, and the reference point moves to the
last flushed one. -/
theorem flushKnown_parts (received : List Id) (peer : PeerConnection Id) :
    ∃ popped rest, received = popped ++ rest ∧
      (∀ first ∈ rest.head?, client.isKnownBlock first = false) ∧
      (client.flushKnown context received peer).2 = rest ∧
      (client.flushKnown context received peer).1.idsOfItemsToGet = peer.idsOfItemsToGet ∧
      (client.flushKnown context received peer).1.lastBlockDelegateHasSeen =
        popped.getLast?.getD peer.lastBlockDelegateHasSeen := by
  induction received generalizing peer with
  | nil => exact ⟨[], [], rfl, by simp, rfl, rfl, rfl⟩
  | cons id rest inductionHypothesis =>
    rw [Database.flushKnown]
    by_cases known : client.isKnownBlock id = true
    · rw [if_pos known]
      obtain ⟨popped, left, split, unknown, remain, kept, last⟩ := inductionHypothesis
        { peer with
          lastBlockDelegateHasSeen := id
          lastBlockTimeDelegateHasSeen := context.getBlockTime id }
      refine ⟨id :: popped, left, by rw [split, List.cons_append], unknown, remain, kept, ?_⟩
      rw [last, List.getLast?_cons, Option.getD_some]
    · rw [if_neg known]
      refine ⟨[], id :: rest, rfl, ?_, rfl, rfl, rfl⟩
      simpa using known

omit [DecidableEq Id] in
/-- A lower part of the ids of a chain are the ids of its lower part. -/
theorem ids_split {popped rest : List Id} (split : ids hashing got = popped ++ rest) :
    ∃ upper lower, got = upper ++ lower ∧ ids hashing lower = popped ∧ ids hashing upper = rest := by
  have lengths : got.length = popped.length + rest.length := by
    rw [← @ids_length _ _ _ hashing got, split, List.length_append]
  have upper : got.length - popped.length = rest.length := by omega
  refine ⟨got.take rest.length, got.drop rest.length, (List.take_append_drop _ _).symm, ?_, ?_⟩
  · have taken : (ids hashing got).take popped.length = popped := by rw [split, List.take_left]
    rw [ids, List.take_reverse, List.length_map, upper] at taken
    rw [ids, List.map_drop, taken]
  · have dropped : (ids hashing got).drop popped.length = rest := by rw [split, List.drop_left]
    rw [ids, List.drop_reverse, List.length_map, upper] at dropped
    rw [ids, List.map_take, dropped]

omit [DecidableEq Id] in
theorem tip_of_last {upper lower : List (Block Id Tx H)} {last : Id}
    (ends : (ids hashing upper).getLast? = some last) : tip hashing (upper ++ lower) = last := by
  cases upper with
  | nil => cases ends
  | cons block rest =>
    rw [ids_cons, List.getLast?_concat] at ends
    exact Option.some.inj ends

omit [DecidableEq Id] in
/-- A block above a lower part has a higher number. -/
theorem num_above (linked : IsChain hashing (ahead ++ viewed)) (member : block ∈ ahead) :
    viewed.length < hashing.num block := by
  obtain ⟨upper, lower, rfl⟩ := List.append_of_mem member
  rw [List.append_assoc, List.cons_append] at linked
  have number := num_of_below linked
  rw [hashing.numFromId_id, List.length_append] at number
  rw [Hashing.num]
  omega

omit [DecidableEq Id] in
theorem num_within (linked : IsChain hashing (ahead ++ viewed)) (member : block ∈ viewed) :
    hashing.num block ≤ viewed.length := by
  have lower := linked.drop ahead.length
  rw [List.drop_left] at lower
  exact (num_le_length lower member).2

/-- Whatever the answer replaces, the node sees the chain that the answer leads up to. -/
theorem mergeReceived_sees (sees : Sees hashing chain peer viewed ahead)
    (known : ∀ block ∈ viewed, client.isKnownBlock (hashing.id block) = true)
    (fresh : ∀ id, context.isFirstItemForOtherPeer id = true → client.isKnownBlock id = false)
    (linked : IsChain hashing (got ++ block :: below))
    (meets : (∃ above, ahead ++ viewed = above ++ block :: below) ∨
      ahead ++ viewed = [] ∧ below = []) (remaining : Nat) :
    ∃ viewedNow aheadNow, aheadNow ++ viewedNow = got ++ block :: below ∧
      Sees hashing chain
        { (client.mergeReceived context (hashing.id block :: ids hashing got) peer).1 with
          idsOfItemsToGet :=
            (client.mergeReceived context (hashing.id block :: ids hashing got)
              peer).1.idsOfItemsToGet ++
            (client.mergeReceived context (hashing.id block :: ids hashing got) peer).2
          numberOfUnfetchedItemIds := remaining } viewedNow aheadNow := by
  have whole : hashing.id block :: ids hashing got = ids hashing (got ++ [block]) := by
    rw [ids_append, ids_cons, ids_nil, List.nil_append, List.singleton_append]
  rw [Database.mergeReceived]
  by_cases idle : peer.idsOfItemsToGet = []
  · have none : ahead = [] := by
      rw [sees.offered, ids_eq_nil] at idle
      exact idle
    subst none
    rw [List.nil_append] at meets
    -- an answer that nothing is flushed of goes to a node without a block
    have bare : client.isKnownBlock (hashing.id block) = false → viewed = [] ∧ below = [] := by
      intro unknown
      rcases meets with ⟨above, rfl⟩ | bare
      · rw [known block (by simp)] at unknown
        cases unknown
      · exact bare
    rw [if_pos idle]
    by_cases waiting : context.isFirstItemForOtherPeer (hashing.id block) = true
    · obtain ⟨rfl, rfl⟩ := bare (fresh _ waiting)
      rw [if_pos waiting]
      refine ⟨[], got ++ [block], by simp, ⟨?_, sees.top, ?_⟩⟩
      · rwa [List.append_nil]
      · dsimp only
        rw [idle, List.nil_append, whole]
    · rw [if_neg waiting, whole]
      obtain ⟨popped, rest, split, unknown, remain, kept, last⟩ :=
        @flushKnown_parts _ _ _ _ hashing _ client context (ids hashing (got ++ [block])) peer
      obtain ⟨upper, lower, parts, popped, left⟩ := ids_split split
      have together : upper ++ (lower ++ below) = got ++ block :: below := by
        rw [← List.append_assoc, ← parts, List.append_assoc, List.singleton_append]
      refine ⟨lower ++ below, upper, together, ⟨together ▸ linked, ?_, ?_⟩⟩
      · dsimp only
        rw [last, ← popped]
        cases ends : (ids hashing lower).getLast? with
        | none =>
          have empty : lower = [] := ids_eq_nil.mp (List.getLast?_eq_none_iff.mp ends)
          subst empty
          rw [List.append_nil] at parts
          have first : rest.head? = some (hashing.id block) := by
            rw [← left, ← parts, ← whole]
            rfl
          obtain ⟨rfl, rfl⟩ := bare (unknown _ first)
          rw [Option.getD_none]
          exact sees.top
        | some id =>
          have real : id ≠ hashing.null := by
            obtain ⟨other, _, rfl⟩ := mem_ids.mp (List.mem_of_getLast? ends)
            exact id_ne_null other
          rw [Option.getD_some, if_neg real, tip_of_last ends]
      · dsimp only
        rw [kept, remain, idle, List.nil_append, left]
  · rw [if_neg idle]
    have offers : ahead ≠ [] := by
      intro none
      rw [sees.offered, none] at idle
      exact idle rfl
    obtain ⟨above, split⟩ : ∃ above, ahead ++ viewed = above ++ block :: below := by
      rcases meets with meets | ⟨none, _⟩
      · exact meets
      · exact absurd (List.append_eq_nil_iff.mp none).1 offers
    have dropped : peer.idsOfItemsToGet.rdropWhile (fun id => id ≠ hashing.id block) =
        ((ahead.map hashing.id).dropWhile (fun id => id ≠ hashing.id block)).reverse := by
      rw [sees.offered, ids, List.rdropWhile_reverse]
    by_cases member : block ∈ ahead
    · -- the answer goes on within the offered ids
      obtain ⟨upper, lower, rfl⟩ := List.append_of_mem member
      have around : IsChain hashing (upper ++ block :: (lower ++ viewed)) := by
        simpa using sees.linked
      have absent : ∀ other ∈ upper, hashing.id other ≠ hashing.id block := by
        intro other inUpper same
        have apart := num_above around inUpper
        have within := num_within around List.mem_cons_self
        rw [hashing.injective same] at apart
        omega
      have kept : peer.idsOfItemsToGet.rdropWhile (fun id => id ≠ hashing.id block) =
          ids hashing lower ++ [hashing.id block] := by
        rw [dropped, List.map_append, List.dropWhile_append_of_pos, List.map_cons,
          List.dropWhile_cons_of_neg (by simp), List.reverse_cons, ids]
        intro id inUpper
        obtain ⟨other, member, rfl⟩ := List.mem_map.mp inUpper
        simpa using absent other member
      have tails : below = lower ++ viewed := by
        have one : IsChain hashing (block :: (lower ++ viewed)) := by
          have part := around.drop upper.length
          rwa [List.drop_left] at part
        have two : IsChain hashing (block :: below) := by
          have part := linked.drop got.length
          rwa [List.drop_left] at part
        exact (List.cons.inj (isChain_unique two one rfl)).2
      rw [if_neg (by rw [kept]; simp)]
      refine ⟨viewed, got ++ block :: lower, by simp [tails], ⟨?_, sees.top, ?_⟩⟩
      · rw [List.append_assoc, List.cons_append, ← tails]
        exact linked
      · dsimp only
        rw [kept, List.dropLast_concat, ids_append, ids_cons, List.append_assoc,
          List.singleton_append]
    · -- the answer leaves none of the offered ids
      have kept : peer.idsOfItemsToGet.rdropWhile (fun id => id ≠ hashing.id block) = [] := by
        rw [dropped, List.reverse_eq_nil_iff, List.dropWhile_eq_nil_iff]
        intro id offered
        obtain ⟨other, inAhead, rfl⟩ := List.mem_map.mp offered
        have different : hashing.id other ≠ hashing.id block :=
          fun same => member (hashing.injective same ▸ inAhead)
        simpa using different
      rw [if_pos kept]
      refine ⟨block :: below, got, rfl, ⟨linked, ?_, ?_⟩⟩
      · dsimp only
        rw [if_neg (id_ne_null block)]
        rfl
      · exact List.nil_append _

end Merging

end DeipChain.Chain
