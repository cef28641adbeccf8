import DeipChain.Sync.CatchUp

/-!
# The blocks that arrive during a synchronization

The blocks of a chain are asked from several peers and arrive in any order. They are kept until
one of them is the first that some peer still has to send, and are handed to the application one
after the other. As long as the peers offer lower parts of one chain, the application gets the
blocks of that chain in their order, each one once, and takes them all.

Left out are which blocks are requested from which peer, which peers are asked for more ids when
their list has run out, and the check of a peer's version at a hard fork.
-/
namespace DeipChain.Chain

open Snapshots

variable {Id Tx H R D : Type} {hashing : Hashing Id Tx H}

/-- `MAXIMUM_NUMBER_OF_BLOCKS_TO_HANDLE_AT_ONE_TIME` -/
def maximumNumberOfBlocksToHandleAtOneTime : Nat := 200

/-- `GRAPHENE_NET_DEFAULT_MAX_CONNECTIONS`, which is also how many accepted blocks are remembered. -/
def maximumNumberOfConnections : Nat := 200

/-- `allow_future_time` of `handle_block` -/
def allowFutureTime : Nat := 5

/-- What the network tells apart of the exceptions of `handle_block`. -/
inductive BlockRejection where
  | blockOlderThanUndoHistory
  | rejected
  deriving DecidableEq

/-- `node_delegate`, as far as blocks and transactions go. -/
structure NodeDelegate (Id Tx H D : Type) where
  handleBlock : (now : Nat) → Block Id Tx H → D → Snapshots.Outcome BlockRejection D
  handleTransaction : Tx → D → D

/-- `application_impl` as the delegate of the network. It tells the network of no fork that is too
old. -/
def applicationDelegate [DecidableEq Id] (processing : Processing Id Tx H R)
    (timestamp : Block Id Tx H → Nat) : NodeDelegate Id Tx H (Database hashing R) where
  handleBlock now block database :=
    if timestamp block ≤ now + allowFutureTime then
      match Database.pushBlock processing block database with
      | .ok _ reached => .ok () reached
      | .error _ reached => .error .rejected reached
    else .error .rejected database
  handleTransaction transaction database :=
    left (Database.pushPending processing transaction database)

/-- A peer of which blocks are fetched. -/
structure FetchingPeer (Id : Type) extends PeerConnection Id where
  idsOfItemsBeingProcessed : List Id

/-- `node_impl`, as far as the blocks of a synchronization go. -/
structure SyncNode (Id Tx H D : Type) where
  delegate : D
  activeConnections : List (FetchingPeer Id)
  newReceivedSyncItems : List (Block Id Tx H)
  receivedSyncItems : List (Block Id Tx H)
  /-- The blocks of `_handle_message_calls_in_progress`, oldest call first. -/
  callsInProgress : List (Block Id Tx H)
  mostRecentBlocksAccepted : List Id

/-- What happens on a node while it synchronizes. -/
inductive SyncEvent (Id Tx H : Type) where
  | blockReceived (block : Block Id Tx H)
  | processBacklog
  | handleNext (now : Nat)
  | transactionReceived (transaction : Tx)

namespace SyncNode

/-- `process_block_during_sync`: the block waits for the next pass over the backlog. -/
def processBlockDuringSync (block : Block Id Tx H) (node : SyncNode Id Tx H D) :
    SyncNode Id Tx H D :=
  { node with newReceivedSyncItems := block :: node.newReceivedSyncItems }

/-- The blocks received since the last pass are put in front. -/
def collectReceived (node : SyncNode Id Tx H D) : SyncNode Id Tx H D :=
  { node with
    newReceivedSyncItems := []
    receivedSyncItems := node.newReceivedSyncItems.reverse ++ node.receivedSyncItems }

/-- `push_back` on the circular buffer of the accepted blocks. -/
def rememberAccepted (id : Id) (accepted : List Id) : List Id :=
  (accepted ++ [id]).drop (accepted.length + 1 - maximumNumberOfConnections)

theorem mem_rememberAccepted {id other : Id} {accepted : List Id}
    (member : other ∈ rememberAccepted id accepted) : other ∈ accepted ∨ other = id := by
  rw [rememberAccepted] at member
  simpa using List.mem_of_mem_drop member

end SyncNode

variable [DecidableEq Id]

namespace FetchingPeer

/-- A block at the front of the peer's list is taken off it. -/
def takeFront (id : Id) (peer : FetchingPeer Id) : FetchingPeer Id :=
  if peer.idsOfItemsToGet.head? = some id then
    { peer with
      idsOfItemsToGet := peer.idsOfItemsToGet.tail
      idsOfItemsBeingProcessed := peer.idsOfItemsBeingProcessed.insert id }
  else peer

/-- A block that has been accepted before is not processed again. -/
def finishItem (id : Id) (peer : FetchingPeer Id) : FetchingPeer Id :=
  { peer with idsOfItemsBeingProcessed := peer.idsOfItemsBeingProcessed.erase id }

/-- A block that the delegate has accepted. -/
def acceptItem (id : Id) (time : Nat) (peer : FetchingPeer Id) : FetchingPeer Id :=
  if id ∈ peer.idsOfItemsBeingProcessed then
    { peer with
      lastBlockDelegateHasSeen := id
      lastBlockTimeDelegateHasSeen := time
      idsOfItemsBeingProcessed := peer.idsOfItemsBeingProcessed.erase id }
  else peer

/-- A block of a fork that is too old. -/
def inhibitItem (id : Id) (peer : FetchingPeer Id) : FetchingPeer Id :=
  if id ∈ peer.idsOfItemsBeingProcessed then { peer with inhibitFetchingSyncBlocks := true }
  else peer

end FetchingPeer

namespace SyncNode

/-- The block is the next one of some peer's list. -/
def potentialFirstBlock (hashing : Hashing Id Tx H) (node : SyncNode Id Tx H D)
    (block : Block Id Tx H) : Bool :=
  node.activeConnections.any (fun peer =>
    peer.idsOfItemsToGet.head? = some (hashing.id block))

/-- The loop of `process_backlog_of_sync_blocks`. Every turn but the last hands over a received
block, so their number bounds the turns. -/
def processBacklogLoop (hashing : Hashing Id Tx H) : Nat → SyncNode Id Tx H D → SyncNode Id Tx H D
  | 0, node => node
  | fuel + 1, node =>
    let collected := node.collectReceived
    match collected.receivedSyncItems.find? (collected.potentialFirstBlock hashing) with
    | none => collected
    | some block =>
      let id := hashing.id block
      let taken := collected.activeConnections.map (FetchingPeer.takeFront id)
      if id ∈ collected.mostRecentBlocksAccepted then
        { collected with activeConnections := taken.map (FetchingPeer.finishItem id) }
      else
        let handed := { collected with
          activeConnections := taken
          receivedSyncItems :=
            collected.receivedSyncItems.eraseP (collected.potentialFirstBlock hashing)
          callsInProgress := collected.callsInProgress ++ [block] }
        if maximumNumberOfBlocksToHandleAtOneTime ≤ handed.callsInProgress.length then handed
        else processBacklogLoop hashing fuel handed

/-- `process_backlog_of_sync_blocks` -/
def processBacklogOfSyncBlocks (hashing : Hashing Id Tx H) (node : SyncNode Id Tx H D) :
    SyncNode Id Tx H D :=
  if maximumNumberOfBlocksToHandleAtOneTime ≤ node.callsInProgress.length then node
  else
    processBacklogLoop hashing
      (node.newReceivedSyncItems.length + node.receivedSyncItems.length + 1) node

/-- `send_sync_block_to_node_delegate`, for the oldest of the calls in progress. A peer that has
offered a rejected block is disconnected. -/
def sendSyncBlockToNodeDelegate (hashing : Hashing Id Tx H) (delegate : NodeDelegate Id Tx H D)
    (timestamp : Block Id Tx H → Nat) (now : Nat) (node : SyncNode Id Tx H D) :
    SyncNode Id Tx H D :=
  match node.callsInProgress with
  | [] => node
  | block :: others =>
    let id := hashing.id block
    match delegate.handleBlock now block node.delegate with
    | .ok _ reached =>
      { node with
        delegate := reached
        callsInProgress := others
        mostRecentBlocksAccepted := rememberAccepted id node.mostRecentBlocksAccepted
        activeConnections :=
          node.activeConnections.map (FetchingPeer.acceptItem id (timestamp block)) }
    | .error .blockOlderThanUndoHistory reached =>
      { node with
        delegate := reached
        callsInProgress := others
        activeConnections := node.activeConnections.map (FetchingPeer.inhibitItem id) }
    | .error .rejected reached =>
      { node with
        delegate := reached
        callsInProgress := others
        activeConnections := node.activeConnections.filter (fun peer =>
          id ∉ peer.idsOfItemsBeingProcessed) }

/-- The node after an event. -/
def afterEvent (hashing : Hashing Id Tx H) (delegate : NodeDelegate Id Tx H D)
    (timestamp : Block Id Tx H → Nat) (node : SyncNode Id Tx H D) :
    SyncEvent Id Tx H → SyncNode Id Tx H D
  | .blockReceived block => node.processBlockDuringSync block
  | .processBacklog => node.processBacklogOfSyncBlocks hashing
  | .handleNext now => node.sendSyncBlockToNodeDelegate hashing delegate timestamp now
  | .transactionReceived transaction =>
    { node with delegate := delegate.handleTransaction transaction node.delegate }

/-- The node after a sequence of events. -/
def afterEvents (hashing : Hashing Id Tx H) (delegate : NodeDelegate Id Tx H D)
    (timestamp : Block Id Tx H → Nat) (events : List (SyncEvent Id Tx H))
    (node : SyncNode Id Tx H D) : SyncNode Id Tx H D :=
  events.foldl (afterEvent hashing delegate timestamp) node

end SyncNode

/-! ## Delivery in order -/

section Delivery

variable {rest handed offer more chain going got arrived : List (Block Id Tx H)}
  {offers : List (List (Block Id Tx H))} {block : Block Id Tx H} {peer other : FetchingPeer Id}
  {node : SyncNode Id Tx H D} {delegate : NodeDelegate Id Tx H D}
  {timestamp : Block Id Tx H → Nat} {holds : List (Block Id Tx H) → D → Prop}

omit [DecidableEq Id] in
theorem isChain_nodup (linked : IsChain hashing chain) : chain.Nodup := by
  induction chain with
  | nil => exact List.nodup_nil
  | cons block rest inductionHypothesis =>
    refine List.nodup_cons.mpr ⟨fun member => ?_, inductionHypothesis linked.2⟩
    have bound := (num_le_length linked.2 member).2
    have height := num_of_chain linked
    omega

omit [DecidableEq Id] in
theorem exists_of_forall₂ {α β : Type} {relation : α → β → Prop} {first : List α}
    {second : List β} (related : List.Forall₂ relation first second) {right : β}
    (member : right ∈ second) : ∃ left ∈ first, relation left right := by
  induction related with
  | nil => cases member
  | cons here later inductionHypothesis =>
    rcases List.mem_cons.mp member with rfl | inside
    · exact ⟨_, List.mem_cons_self, here⟩
    · obtain ⟨left, found, same⟩ := inductionHypothesis inside
      exact ⟨left, List.mem_cons_of_mem _ found, same⟩

/-- What a peer's list still has of its offer when some blocks have been handed over: nothing,
when all of the offer has, or the blocks that come next. -/
def Remaining (hashing : Hashing Id Tx H) (rest handed offer : List (Block Id Tx H))
    (peer : FetchingPeer Id) : Prop :=
  (peer.idsOfItemsToGet = [] ∧ ∃ above, handed = above ++ offer) ∨
    ∃ above lower, lower ≠ [] ∧ rest = above ++ lower ∧ offer = lower ++ handed ∧
      peer.idsOfItemsToGet = ids hashing lower

omit [DecidableEq Id] in
theorem Remaining.of_list (remaining : Remaining hashing rest handed offer peer)
    (same : other.idsOfItemsToGet = peer.idsOfItemsToGet) :
    Remaining hashing rest handed offer other := by
  unfold Remaining at remaining ⊢
  rwa [same]

omit [DecidableEq Id] in
theorem ids_concat (lower : List (Block Id Tx H)) (block : Block Id Tx H) :
    ids hashing (lower ++ [block]) = hashing.id block :: ids hashing lower := by
  rw [ids_append]
  rfl

omit [DecidableEq Id] in
/-- A block at the front of a list is the one that comes next. -/
theorem Remaining.front (remaining : Remaining hashing rest handed offer peer)
    (first : peer.idsOfItemsToGet.head? = some (hashing.id block)) :
    ∃ later, rest = later ++ [block] := by
  rcases remaining with ⟨empty, _⟩ | ⟨above, lower, some, rfl, _, list⟩
  · rw [empty] at first
    cases first
  · obtain ⟨upper, next, rfl⟩ := (List.eq_nil_or_concat' lower).resolve_left some
    rw [list, ids_concat, List.head?_cons, Option.some.injEq] at first
    exact ⟨above ++ upper, by rw [hashing.injective first, List.append_assoc]⟩

/-- The block that comes next is taken off every list that has any. -/
theorem Remaining.takeFront (remaining : Remaining hashing (rest ++ [block]) handed offer peer) :
    Remaining hashing rest (block :: handed) offer (peer.takeFront (hashing.id block)) := by
  rcases remaining with ⟨empty, above, rfl⟩ | ⟨above, lower, some, split, rfl, list⟩
  · rw [FetchingPeer.takeFront, if_neg (by simp [empty])]
    exact .inl ⟨empty, block :: above, rfl⟩
  · obtain ⟨upper, next, rfl⟩ := (List.eq_nil_or_concat' lower).resolve_left some
    rw [← List.append_assoc] at split
    obtain ⟨rfl, same⟩ := List.append_inj' split rfl
    obtain rfl : block = next := List.singleton_inj.mp same
    rw [FetchingPeer.takeFront, if_pos (by simp [list, ids_concat])]
    by_cases last : upper = []
    · subst last
      exact .inl ⟨by simp [list, ids], [], rfl⟩
    · exact .inr ⟨above, upper, last, rfl, by simp, by simp [list, ids_concat]⟩

/-- The blocks of a chain on their way to the delegate: those that some peer still has to send,
those handed over, and those that the delegate has got. -/
structure Delivering (hashing : Hashing Id Tx H) (holds : List (Block Id Tx H) → D → Prop)
    (offers : List (List (Block Id Tx H))) (more arrived rest going got : List (Block Id Tx H))
    (node : SyncNode Id Tx H D) : Prop where
  split : more = rest ++ (going ++ got)
  inProgress : node.callsInProgress = going.reverse
  delegate : holds got node.delegate
  lists : List.Forall₂ (Remaining hashing rest (going ++ got)) offers node.activeConnections
  fresh : ∀ block ∈ rest ++ going, hashing.id block ∉ node.mostRecentBlocksAccepted
  kept : ∀ block ∈ arrived, block ∈ node.newReceivedSyncItems ∨ block ∈ node.receivedSyncItems ∨
    block ∈ going ++ got

/-- A received block that is first for some peer is the one that comes next. -/
theorem Delivering.potentialFirst
    (delivering : Delivering hashing holds offers more arrived rest going got node)
    (first : node.potentialFirstBlock hashing block = true) : ∃ later, rest = later ++ [block] := by
  rw [SyncNode.potentialFirstBlock, List.any_eq_true] at first
  obtain ⟨peer, active, front⟩ := first
  obtain ⟨offer, _, remaining⟩ := exists_of_forall₂ delivering.lists active
  exact remaining.front (of_decide_eq_true front)

omit [DecidableEq Id] in
theorem Delivering.collected
    (delivering : Delivering hashing holds offers more arrived rest going got node) :
    Delivering hashing holds offers more arrived rest going got node.collectReceived where
  split := delivering.split
  inProgress := delivering.inProgress
  delegate := delivering.delegate
  lists := delivering.lists
  fresh := delivering.fresh
  kept block member := by
    rcases delivering.kept block member with new | old | handed
    · exact .inr (.inl (List.mem_append_left _ (List.mem_reverse.mpr new)))
    · exact .inr (.inl (List.mem_append_right _ old))
    · exact .inr (.inr handed)

/-- A turn of the loop hands over the block that comes next. -/
theorem Delivering.handOver
    (delivering : Delivering hashing holds offers more arrived (rest ++ [block]) going got node) :
    Delivering hashing holds offers more arrived rest (block :: going) got
      { node with
        activeConnections :=
          node.activeConnections.map (FetchingPeer.takeFront (hashing.id block))
        receivedSyncItems := node.receivedSyncItems.eraseP (node.potentialFirstBlock hashing)
        callsInProgress := node.callsInProgress ++ [block] } where
  split := by
    rw [delivering.split]
    simp
  inProgress := by
    rw [List.reverse_cons, ← delivering.inProgress]
  delegate := delivering.delegate
  lists := by
    rw [List.forall₂_map_right_iff]
    exact delivering.lists.imp (fun _ _ remaining => remaining.takeFront)
  fresh other member := delivering.fresh other (by simpa [or_assoc] using member)
  kept other member := by
    rcases delivering.kept other member with new | old | got
    · exact .inl new
    · by_cases first : node.potentialFirstBlock hashing other = true
      · obtain ⟨later, same⟩ := delivering.potentialFirst first
        have last : block = other := List.singleton_inj.mp (List.append_inj_right' same rfl)
        exact .inr (.inr (last ▸ List.mem_cons_self))
      · exact .inr (.inl ((List.mem_eraseP_of_neg first).mpr old))
    · exact .inr (.inr (List.mem_cons_of_mem _ got))

theorem processBacklogLoop_calls (fuel : Nat) (node : SyncNode Id Tx H D) :
    node.callsInProgress <+: (node.processBacklogLoop hashing fuel).callsInProgress := by
  induction fuel generalizing node with
  | zero => exact List.prefix_rfl
  | succ fuel inductionHypothesis =>
    rw [SyncNode.processBacklogLoop]
    dsimp only
    split
    · exact List.prefix_rfl
    · split
      · exact List.prefix_rfl
      · split
        · exact List.prefix_append _ _
        · refine List.IsPrefix.trans ?_ (inductionHypothesis _)
          exact List.prefix_append _ _

/-- The blocks that the loop hands over are those that come next. -/
theorem Delivering.processBacklogLoop (fuel : Nat)
    (delivering : Delivering hashing holds offers more arrived rest going got node) :
    ∃ later further, Delivering hashing holds offers more arrived later further got
      (node.processBacklogLoop hashing fuel) := by
  induction fuel generalizing rest going node with
  | zero => exact ⟨rest, going, delivering⟩
  | succ fuel inductionHypothesis =>
    have collected := delivering.collected
    rw [SyncNode.processBacklogLoop]
    dsimp only
    split
    · exact ⟨rest, going, collected⟩
    · rename_i block found
      obtain ⟨later, rfl⟩ := collected.potentialFirst (List.find?_some found)
      rw [if_neg (collected.fresh block (by simp))]
      split
      · exact ⟨later, block :: going, collected.handOver⟩
      · exact inductionHypothesis collected.handOver

theorem Delivering.processBacklog
    (delivering : Delivering hashing holds offers more arrived rest going got node) :
    ∃ later further, Delivering hashing holds offers more arrived later further got
      (node.processBacklogOfSyncBlocks hashing) := by
  rw [SyncNode.processBacklogOfSyncBlocks]
  split
  · exact ⟨rest, going, delivering⟩
  · exact delivering.processBacklogLoop _

/-- A delegate that takes the blocks of a chain one after the other. -/
structure Takes (delegate : NodeDelegate Id Tx H D) (timestamp : Block Id Tx H → Nat)
    (more : List (Block Id Tx H)) (holds : List (Block Id Tx H) → D → Prop) : Prop where
  block : ∀ above block below now state, more = above ++ block :: below →
    timestamp block ≤ now + allowFutureTime → holds below state →
      ∃ reached, delegate.handleBlock now block state = .ok () reached ∧
        holds (block :: below) reached
  transaction : ∀ got transaction state, holds got state →
    holds got (delegate.handleTransaction transaction state)

/-- The block handed over first is taken. -/
theorem Delivering.sendSyncBlock (takes : Takes delegate timestamp more holds) {now : Nat}
    (timely : ∀ block ∈ more, timestamp block ≤ now + allowFutureTime) (linked : more.Nodup)
    (delivering : Delivering hashing holds offers more arrived rest going got node) :
    ∃ remaining taken, Delivering hashing holds offers more arrived rest remaining taken
      (node.sendSyncBlockToNodeDelegate hashing delegate timestamp now) := by
  have calls := delivering.inProgress
  rcases List.eq_nil_or_concat' going with rfl | ⟨remaining, block, rfl⟩
  · refine ⟨[], got, ?_⟩
    rw [SyncNode.sendSyncBlockToNodeDelegate, calls]
    exact delivering
  · have split : more = (rest ++ remaining) ++ block :: got := by
      rw [delivering.split]
      simp
    obtain ⟨reached, taken, held⟩ := takes.block _ block got now node.delegate split
      (timely block (by simp [split])) delivering.delegate
    rw [List.reverse_concat] at calls
    have handed : (remaining ++ [block]) ++ got = remaining ++ block :: got := by simp
    refine ⟨remaining, block :: got, ?_⟩
    rw [SyncNode.sendSyncBlockToNodeDelegate, calls]
    dsimp only
    rw [taken]
    refine ⟨?_, rfl, held, ?_, fun other member accepted => ?_, fun other member => ?_⟩
    · rw [split, List.append_assoc]
    · rw [List.forall₂_map_right_iff, ← handed]
      refine delivering.lists.imp (fun _ _ remaining => remaining.of_list ?_)
      rw [FetchingPeer.acceptItem]
      split <;> rfl
    · dsimp only at accepted
      rcases SyncNode.mem_rememberAccepted accepted with before | same
      · refine delivering.fresh other ?_ before
        rcases List.mem_append.mp member with later | inside
        · exact List.mem_append_left _ later
        · exact List.mem_append_right _ (List.mem_append_left _ inside)
      · rw [hashing.injective same] at member
        rw [split] at linked
        exact (List.nodup_append.mp linked).2.2 block member block List.mem_cons_self rfl
    · rw [← handed]
      exact delivering.kept other member

/-- The blocks that a run of events brings. -/
def receivedBlocks : List (SyncEvent Id Tx H) → List (Block Id Tx H)
  | [] => []
  | .blockReceived block :: events => block :: receivedBlocks events
  | _ :: events => receivedBlocks events

/-- The blocks are not in the future when they are handled. -/
def SyncEvent.Timely (timestamp : Block Id Tx H → Nat) (more : List (Block Id Tx H)) :
    SyncEvent Id Tx H → Prop
  | .handleNext now => ∀ block ∈ more, timestamp block ≤ now + allowFutureTime
  | _ => True

theorem Delivering.afterEvents (takes : Takes delegate timestamp more holds)
    (linked : more.Nodup) (events : List (SyncEvent Id Tx H))
    (timely : ∀ event ∈ events, event.Timely timestamp more)
    (delivering : Delivering hashing holds offers more arrived rest going got node) :
    ∃ later further taken, Delivering hashing holds offers more
      ((receivedBlocks events).reverse ++ arrived) later further taken
      (node.afterEvents hashing delegate timestamp events) := by
  induction events generalizing node rest going got arrived with
  | nil => exact ⟨rest, going, got, delivering⟩
  | cons event events inductionHypothesis =>
    have next := fun other member => timely other (List.mem_cons_of_mem event member)
    cases event with
    | blockReceived block =>
      have brought : Delivering hashing holds offers more (block :: arrived) rest going got
          (node.processBlockDuringSync block) :=
        { delivering with
          kept := fun other member => by
            rcases List.mem_cons.mp member with rfl | before
            · exact .inl List.mem_cons_self
            · rcases delivering.kept other before with new | later
              · exact .inl (List.mem_cons_of_mem _ new)
              · exact .inr later }
      rw [receivedBlocks, List.reverse_cons, List.append_assoc, List.singleton_append]
      exact inductionHypothesis next brought
    | processBacklog =>
      obtain ⟨later, further, passed⟩ := delivering.processBacklog
      exact inductionHypothesis next passed
    | handleNext now =>
      obtain ⟨further, taken, handled⟩ :=
        delivering.sendSyncBlock takes (timely _ List.mem_cons_self) linked
      exact inductionHypothesis next handled
    | transactionReceived transaction =>
      exact inductionHypothesis next
        { delivering with
          delegate := takes.transaction got transaction node.delegate delivering.delegate }

/-- When nothing is in progress and a pass hands nothing over, no received block is first. -/
theorem Delivering.idle
    (delivering : Delivering hashing holds offers more arrived rest [] got node)
    (nothing : (node.processBacklogOfSyncBlocks hashing).callsInProgress = []) :
    ∀ block ∈ arrived, block ∉ got → node.potentialFirstBlock hashing block = false := by
  intro block member absent
  have collected := delivering.collected
  have waits : block ∈ node.collectReceived.receivedSyncItems := by
    rcases collected.kept block member with new | old | taken
    · cases new
    · exact old
    · exact absurd taken absent
  rw [SyncNode.processBacklogOfSyncBlocks, delivering.inProgress, List.reverse_nil,
    List.length_nil, if_neg (by decide), SyncNode.processBacklogLoop] at nothing
  dsimp only at nothing
  split at nothing
  · rename_i none
    exact Bool.eq_false_iff.mpr (List.find?_eq_none.mp none block waits)
  · rename_i first found
    obtain ⟨later, rfl⟩ := collected.potentialFirst (List.find?_some found)
    rw [if_neg (collected.fresh first (by simp))] at nothing
    split at nothing
    · simp at nothing
    · have grows := @processBacklogLoop_calls _ _ _ _ hashing _
        (node.newReceivedSyncItems.length + node.receivedSyncItems.length)
        { node.collectReceived with
          activeConnections := node.collectReceived.activeConnections.map
            (FetchingPeer.takeFront (hashing.id first))
          receivedSyncItems := node.collectReceived.receivedSyncItems.eraseP
            (node.collectReceived.potentialFirstBlock hashing)
          callsInProgress := node.collectReceived.callsInProgress ++ [first] }
      rw [nothing, List.prefix_nil] at grows
      simp at grows

/-- An idle node that has received all blocks has handed all of them over. -/
theorem Delivering.complete
    (delivering : Delivering hashing holds offers more arrived rest [] got node)
    (nothing : (node.processBacklogOfSyncBlocks hashing).callsInProgress = [])
    (linked : more.Nodup) (all : ∀ block ∈ more, block ∈ arrived) (offered : more ∈ offers) :
    rest = [] := by
  obtain ⟨peer, active, remaining⟩ := exists_of_forall₂ delivering.lists.flip offered
  rcases remaining with ⟨_, above, handed⟩ | ⟨above, lower, some, split, _, list⟩
  · have lengths := congrArg List.length (handed.symm.trans (List.nil_append got))
    have whole := congrArg List.length delivering.split
    simp only [List.length_append, List.nil_append] at lengths whole
    exact List.eq_nil_of_length_eq_zero (by omega)
  · -- the first block of the list has been received, so it has been handed over
    obtain ⟨upper, first, rfl⟩ := (List.eq_nil_or_concat' lower).resolve_left some
    have member : first ∈ more := by
      rw [delivering.split, split]
      simp
    have absent : first ∉ got := by
      intro taken
      rw [delivering.split, split] at linked
      exact (List.nodup_append.mp linked).2.2 first (by simp) first (by simpa using taken) rfl
    have front : node.potentialFirstBlock hashing first = true := by
      rw [SyncNode.potentialFirstBlock, List.any_eq_true]
      exact ⟨peer, active, by simp [list, ids_concat]⟩
    rw [delivering.idle nothing first (all first member) absent] at front
    cases front

end Delivery

/-! ## Delivery to the application -/

section Application

variable {processing : Processing Id Tx H R} {genesis : R} {chain more : List (Block Id Tx H)}
  {timestamp : Block Id Tx H → Nat} {final : ChainState Id R}

/-- The application takes the blocks of an applied chain on top of its own. -/
theorem applicationDelegate_takes
    (whole : stateAfter hashing processing genesis (more ++ chain) = some final)
    (quiet : Database.calm hashing processing genesis (more ++ chain) = true) :
    Takes (applicationDelegate processing timestamp : NodeDelegate Id Tx H (Database hashing R))
      timestamp more
      (fun got database =>
        ∃ committed, Database.InStep processing genesis (got ++ chain) committed database) where
  block above block below now database split timely inStep := by
    obtain ⟨committed, inStep⟩ := inStep
    have cut : more ++ chain = above ++ block :: (below ++ chain) := by
      rw [split, List.append_assoc]
      rfl
    rw [cut] at whole quiet
    obtain ⟨after, next⟩ := Database.stateAfter_append whole
    obtain ⟨reached, raised, accepted, further, _⟩ :=
      inStep.pushBlock next (Database.calm_append quiet)
    refine ⟨reached, ?_, raised, further⟩
    simp only [applicationDelegate, if_pos timely, accepted]
  transaction got transaction database inStep := by
    obtain ⟨committed, inStep⟩ := inStep
    obtain ⟨raised, further, _⟩ := inStep.pushTransaction transaction
    exact ⟨raised, further⟩

/-- Peers offer lower parts of one chain on top of the node's own. Whatever arrives in whatever
order, the node gets the blocks of that chain in their order and takes each of them, and no peer
is disconnected. When one of them has offered the whole chain, all blocks have arrived and nothing
is left to do, the node has the objects of the other node. -/
theorem backlog_catches_up (hashing : Hashing Id Tx H) (processing : Processing Id Tx H R)
    (genesis : R) (timestamp : Block Id Tx H → Nat) (ownCalls : List (Database.Call Id Tx H))
    (events : List (SyncEvent Id Tx H)) (chain more : List (Block Id Tx H))
    (offers : List (List (Block Id Tx H))) (node : SyncNode Id Tx H (Database hashing R))
    (other : Database hashing R)
    (reaches : node.delegate =
      Database.afterCalls processing ownCalls (Database.genesis hashing genesis))
    (smoothly : Database.smoothRun processing ownCalls (Database.genesis hashing genesis) = true)
    (straightly : Database.straightRun processing ownCalls (Database.genesis hashing genesis) = true)
    (applied : Database.AppliedChain processing genesis chain node.delegate)
    (otherApplied : Database.AppliedChain processing genesis (more ++ chain) other)
    (quiet : Database.calm hashing processing genesis (more ++ chain) = true)
    (offered : List.Forall₂ (fun offer peer => (∃ above, more = above ++ offer) ∧
      peer.idsOfItemsToGet = ids hashing offer) offers node.activeConnections)
    (starts : node.callsInProgress = [])
    (fresh : ∀ block ∈ more, hashing.id block ∉ node.mostRecentBlocksAccepted)
    (timely : ∀ event ∈ events, event.Timely timestamp more) :
    let reached := node.afterEvents hashing (applicationDelegate processing timestamp) timestamp
      events
    (∃ rest going got, more = rest ++ (going ++ got) ∧ reached.callsInProgress = going.reverse ∧
        Database.AppliedChain processing genesis (got ++ chain) reached.delegate ∧
        reached.activeConnections.length = node.activeConnections.length) ∧
      (more ∈ offers → (∀ block ∈ more, block ∈ receivedBlocks events) →
        reached.callsInProgress = [] →
        (reached.processBacklogOfSyncBlocks hashing).callsInProgress = [] →
          reached.delegate.clearPending.store.current = other.clearPending.store.current) := by
  intro reached
  obtain ⟨ownChain, committed, inStep, _⟩ := Database.afterCalls_inStep ownCalls
    (Database.inStep_genesis processing genesis) smoothly straightly
  rw [← reaches] at inStep
  obtain rfl := applied.unique inStep.aligned.together.replayed
  have linked : more.Nodup := by
    have whole := isChain_nodup (stateAfter_reached otherApplied).linked
    exact (List.nodup_append.mp whole).1
  have begins : Delivering hashing (fun got database => ∃ committed,
      Database.InStep processing genesis (got ++ chain) committed database) offers more [] more []
      [] node := by
    refine ⟨by simp, starts, ⟨committed, inStep⟩, offered.imp ?_, by simpa using fresh, by simp⟩
    rintro offer peer ⟨⟨above, whole⟩, list⟩
    by_cases some : offer = []
    · exact .inl ⟨by simp [list, some, ids], [], by simp [some]⟩
    · exact .inr ⟨above, offer, some, whole, by simp, list⟩
  obtain ⟨rest, going, got, delivering⟩ :=
    begins.afterEvents (applicationDelegate_takes otherApplied quiet) linked events timely
  obtain ⟨raised, final⟩ := delivering.delegate
  have replayed := final.aligned.together.replayed
  refine ⟨⟨rest, going, got, delivering.split, delivering.inProgress, replayed, ?_⟩,
    fun offers all idle nothing => ?_⟩
  · exact delivering.lists.length_eq.symm.trans offered.length_eq
  · have none : going = [] := List.reverse_eq_nil_iff.mp (delivering.inProgress.symm.trans idle)
    subst none
    have done := delivering.complete nothing linked (fun block member => by simp [all block member])
      offers
    have whole : more = got := by
      rw [delivering.split, done]
      rfl
    rw [← whole] at replayed
    exact Option.some.inj (replayed.symm.trans otherApplied)

end Application

/-! ## Three blocks in the wrong order -/

namespace SignedChain

/-- The second to the fourth block of a chain, of which another peer has offered the first. -/
def fetching : SyncNode (List (Entry Unit Bool)) Unit Bool
    (Database (Hashing.spelled Unit Bool) Unit) where
  delegate := asking
  activeConnections :=
    [{ connection with
        idsOfItemsToGet := [branch "alice" 2 [], branch "alice" 3 [], branch "alice" 4 []]
        idsOfItemsBeingProcessed := [] },
      { connection with
        idsOfItemsToGet := [branch "alice" 2 []]
        idsOfItemsBeingProcessed := [] }]
  newReceivedSyncItems := []
  receivedSyncItems := []
  callsInProgress := []
  mostRecentBlocksAccepted := [branch "alice" 1 []]

/-- The blocks arrive newest first. -/
def arrivals : List (SyncEvent (List (Entry Unit Bool)) Unit Bool) :=
  ((aliceBlocks 4).take 3).map .blockReceived ++
    [.transactionReceived (), .processBacklog, .handleNext 0, .handleNext 0, .handleNext 0]

theorem arrivals_catch_up :
    (fetching.afterEvents (Hashing.spelled Unit Bool) (applicationDelegate processing (fun _ => 0))
        (fun _ => 0) arrivals).delegate.clearPending.store.current =
      ahead.clearPending.store.current := by
  have offered : List.Forall₂ (fun offer peer => (∃ above, (aliceBlocks 4).take 3 = above ++ offer) ∧
      peer.idsOfItemsToGet = ids (Hashing.spelled Unit Bool) offer)
      [(aliceBlocks 4).take 3, [Entry.block ("alice", [], true) (branch "alice" 1 [])]]
      fetching.activeConnections := by
    refine .cons ⟨⟨[], rfl⟩, by decide +kernel⟩ (.cons ⟨⟨(aliceBlocks 4).take 2, rfl⟩, ?_⟩ .nil)
    decide +kernel
  refine (backlog_catches_up (Hashing.spelled Unit Bool) processing () (fun _ => 0)
    (pushes "alice" [] 1) arrivals (aliceBlocks 1) ((aliceBlocks 4).take 3)
    [(aliceBlocks 4).take 3, [Entry.block ("alice", [], true) (branch "alice" 1 [])]] fetching ahead
    rfl (by decide +kernel) (by decide +kernel) (by unfold Database.AppliedChain; decide +kernel)
    (by unfold Database.AppliedChain; decide +kernel) (by decide +kernel) offered rfl
    (by decide +kernel) ?_).2 (by simp) ?_ ?_ ?_
  · intro event member
    cases event with
    | handleNext now => exact fun block _ => Nat.zero_le _
    | blockReceived block => trivial
    | processBacklog => trivial
    | transactionReceived transaction => trivial
  · exact fun block member => member
  · decide +kernel
  · decide +kernel

end SignedChain

end DeipChain.Chain
