import DeipChain.Sync.Synopsis
import Mathlib.Data.List.DropRight

/-!
# The exchange of item ids between two nodes

A node asks a peer with a synopsis of its own chain, to which it adds the ids that the peer has
already offered. The peer answers with a batch of ids and the number of those that follow. The
answer is taken only if it goes on from the synopsis, and it replaces what has been offered
before from the place on where the two differ.

Left out are the messages' transport, the handshake of a new connection, and the count of the
missing items over all peers, which goes to the user interface.
-/
namespace DeipChain.Chain

open Halving

variable {Id Tx H R : Type} {hashing : Hashing Id Tx H}

/-- `DEIP_BLOCK_INTERVAL` -/
def syncBlockInterval : Nat := 3

/-- `GRAPHENE_NET_FUTURE_SYNC_BLOCKS_GRACE_PERIOD_SEC` -/
def futureSyncBlocksGracePeriodSec : Nat := 60 * 60

/-- `GRAPHENE_NET_MIN_BLOCK_IDS_TO_PREFETCH` -/
def minBlockIdsToPrefetch : Nat := 10000

/-- The seconds of `fc::time_point_sec`. -/
def timePointSec (seconds : Nat) : Nat := seconds % 2 ^ 32

/-- `peer_connection` -/
structure PeerConnection (Id : Type) where
  lastBlockDelegateHasSeen : Id
  lastBlockTimeDelegateHasSeen : Nat
  idsOfItemsToGet : List Id
  numberOfUnfetchedItemIds : Nat
  itemIdsRequestedFromPeer : Option (List Id)
  weNeedSyncItemsFromPeer : Bool
  peerNeedsSyncItemsFromUs : Bool
  inhibitFetchingSyncBlocks : Bool
  deriving DecidableEq

/-- What the handlers read of the clock, of the times of the blocks and of the other peers. -/
structure SyncContext (Id : Type) where
  isFirstItemForOtherPeer : Id → Bool
  getBlockTime : Id → Nat
  blockchainNow : Nat

/-- What a node does after an inventory message. -/
inductive SyncAction where
  | ignore
  | disconnectInvalid
  | disconnectUntimely
  | enterNormalOperation
  | fetchSyncItems
  | fetchNextBatch
  deriving DecidableEq

/-- `blockchain_item_ids_inventory_message` with what else follows from a request. -/
structure InventoryReply (Id : Type) where
  itemHashesAvailable : List Id
  totalRemainingItemCount : Nat
  peer : PeerConnection Id
  restartsSync : Bool
  disconnects : Bool

/-- An answer without ids, or whose ids have consecutive numbers and go on from the request. -/
def answersRequest [DecidableEq Id] (hashing : Hashing Id Tx H) (synopsis : List Id) :
    List Id → Bool
  | [] => true
  | first :: rest =>
    (first :: rest).map hashing.numFromId =
        List.range' (hashing.numFromId first) (rest.length + 1) ∧
      if synopsis = [] then hashing.numFromId first = 1 else first ∈ synopsis

/-- The height at which a synopsis starts, 1 if there is none. -/
def lowestNum (hashing : Hashing Id Tx H) : List Id → Nat
  | [] => 1
  | lowest :: _ => hashing.numFromId lowest

namespace Database

variable [DecidableEq Id]

/-- `create_blockchain_synopsis_for_peer` -/
def createBlockchainSynopsisForPeer (peer : PeerConnection Id) (database : Database hashing R) :
    Except SyncError (List Id) :=
  (database.getBlockchainSynopsis peer.lastBlockDelegateHasSeen
      peer.idsOfItemsToGet.length).map (fun synopsis =>
    match peer.idsOfItemsToGet with
    | [] => synopsis
    | first :: rest =>
      let firstNum := hashing.numFromId first
      let trueHigh := firstNum + rest.length
      let low := lowestNum hashing synopsis
      synopsis ++ ((climb trueHigh trueHigh low).filter (fun num => firstNum ≤ num)).map
        (fun num => idAt hashing (first :: rest) (num - firstNum + 1)))

/-- `fetch_next_batch_of_item_ids_from_peer`: the request that is sent, or none when the node
disconnects from the peer. -/
def fetchNextBatchOfItemIdsFromPeer (peer : PeerConnection Id) (database : Database hashing R) :
    Except SyncError (PeerConnection Id × Option (List Id)) :=
  match database.createBlockchainSynopsisForPeer peer with
  | .ok synopsis =>
    .ok ({ peer with itemIdsRequestedFromPeer := some synopsis }, some synopsis)
  | .error .olderThanUndoHistory => .ok (peer, none)
  | .error thrown => .error thrown

/-- `start_synchronizing_with_peer` -/
def startSynchronizingWithPeer (context : SyncContext Id) (peer : PeerConnection Id)
    (database : Database hashing R) : Except SyncError (PeerConnection Id × Option (List Id)) :=
  database.fetchNextBatchOfItemIdsFromPeer { peer with
    idsOfItemsToGet := []
    numberOfUnfetchedItemIds := 0
    weNeedSyncItemsFromPeer := true
    lastBlockDelegateHasSeen := hashing.null
    lastBlockTimeDelegateHasSeen := context.getBlockTime hashing.null
    inhibitFetchingSyncBlocks := false }

/-- `on_fetch_blockchain_item_ids_message`: a peer on an unreachable fork gets an empty list. -/
def onFetchBlockchainItemIdsMessage (synopsis : List Id) (limit : Nat) (peer : PeerConnection Id)
    (database : Database hashing R) : Except SyncError (InventoryReply Id) :=
  let reply := fun (available : List Id) (remaining : Nat) =>
    let upToDate : Bool := synopsis ≠ [] ∧ available.length = 1 ∧ available ⊆ synopsis
    { itemHashesAvailable := available
      totalRemainingItemCount := remaining
      peer := { peer with peerNeedsSyncItemsFromUs := available ≠ [] ∧ ¬ upToDate }
      restartsSync := ¬ peer.weNeedSyncItemsFromPeer ∧
        ∃ last ∈ synopsis.getLast?, ¬ database.isKnownBlock last
      disconnects := upToDate ∧ peer.inhibitFetchingSyncBlocks }
  match database.getBlockIds synopsis limit with
  | .ok (available, remaining) => .ok (reply available remaining)
  | .error .unreachableFork => .ok (reply [] 0)
  | .error thrown => .error thrown

/-- The loop over the received ids that flushes those the node already has. -/
def flushKnown (context : SyncContext Id) (database : Database hashing R) :
    List Id → PeerConnection Id → PeerConnection Id × List Id
  | [], peer => (peer, [])
  | id :: rest, peer =>
    if database.isKnownBlock id then
      flushKnown context database rest { peer with
        lastBlockDelegateHasSeen := id
        lastBlockTimeDelegateHasSeen := context.getBlockTime id }
    else (peer, id :: rest)

/-- The received ids are put in the place of those offered before. -/
def mergeReceived (context : SyncContext Id) (received : List Id) (peer : PeerConnection Id)
    (database : Database hashing R) : PeerConnection Id × List Id :=
  match received with
  | [] => (peer, [])
  | first :: rest =>
    if peer.idsOfItemsToGet = [] then
      if context.isFirstItemForOtherPeer first then (peer, first :: rest)
      else flushKnown context database (first :: rest) peer
    else
      -- pop items off the back until the first new one is found
      let kept := peer.idsOfItemsToGet.rdropWhile (fun id => id ≠ first)
      if kept = [] then
        ({ peer with
            idsOfItemsToGet := []
            lastBlockDelegateHasSeen := first
            lastBlockTimeDelegateHasSeen := context.getBlockTime first }, rest)
      else ({ peer with idsOfItemsToGet := kept.dropLast }, first :: rest)

/-- `on_blockchain_item_ids_inventory_message` -/
def onBlockchainItemIdsInventoryMessage (context : SyncContext Id) (available : List Id)
    (remaining : Nat) (peer : PeerConnection Id) (database : Database hashing R) :
    PeerConnection Id × SyncAction :=
  match peer.itemIdsRequestedFromPeer with
  | none => (peer, .ignore)
  | some synopsis =>
    if answersRequest hashing synopsis available then
      let answered := { peer with itemIdsRequestedFromPeer := none }
      if remaining = 0 ∧ (available = [] ∨
            available.length = 1 ∧ ∀ id ∈ available, database.isKnownBlock id) ∧
          answered.idsOfItemsToGet = [] ∧ answered.numberOfUnfetchedItemIds = 0 then
        ({ answered with weNeedSyncItemsFromPeer := false }, .enterNormalOperation)
      else
        let merged := database.mergeReceived context available answered
        let updated := { merged.1 with
          idsOfItemsToGet := merged.1.idsOfItemsToGet ++ merged.2
          numberOfUnfetchedItemIds := remaining }
        if timePointSec (updated.lastBlockTimeDelegateHasSeen +
              timePointSec (remaining * syncBlockInterval)) >
            timePointSec (context.blockchainNow + futureSyncBlocksGracePeriodSec) then
          (updated, .disconnectUntimely)
        else if remaining ≠ 0 then
          if updated.idsOfItemsToGet.length > minBlockIdsToPrefetch then (updated, .fetchSyncItems)
          else (updated, .fetchNextBatch)
        else if updated.idsOfItemsToGet ≠ [] then (updated, .fetchSyncItems)
        else (updated, .fetchNextBatch)
    else (peer, .disconnectInvalid)

end Database

end DeipChain.Chain
