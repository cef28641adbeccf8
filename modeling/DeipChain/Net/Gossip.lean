import Mathlib.Logic.Function.Basic
import Mathlib.Tactic.Common

/-!
# The propagation of blocks and transactions

Outside of synchronization a node tells its peers which items it has, asks for those it does not
have, and hands what it gets to its delegate. The lists that it keeps for this are the items to
fetch, the items that it has not advertised yet, and for each peer those advertised to it, those
that it advertised, and those requested from it.

A call of the delegate lets other tasks run before it returns, so an item that has arrived is
kept in `handling` until the delegate is done with it. Messages arrive from every peer whose
connection is not closed, also from those that the node itself is disconnecting.

What the synchronization with a peer does to the fields that are read here, how the delegate
decides, and the order of the walk over the connections are parts of the event.
-/
namespace DeipChain.Net

variable {H : Type} [DecidableEq H]

/-- `item_id` -/
structure ItemId (H : Type) where
  itemType : Nat
  itemHash : H
  deriving DecidableEq

def trxMessageType : Nat := 1000

def blockMessageType : Nat := 1001

/-- `timestamped_items_set_type`: at most one entry for an item, with a time in seconds. -/
abbrev TimestampedItems (H : Type) := List (ItemId H × Nat)

namespace TimestampedItems

def has (items : TimestampedItems H) (item : ItemId H) : Bool :=
  items.any fun entry => entry.1 = item

/-- An entry that is there keeps its time. -/
def add (items : TimestampedItems H) (item : ItemId H) (time : Nat) : TimestampedItems H :=
  if items.has item then items else items ++ [(item, time)]

def without (items : TimestampedItems H) (item : ItemId H) : TimestampedItems H :=
  items.filter fun entry => entry.1 ≠ item

omit [DecidableEq H] in
/-- The entries from a time on. -/
def since (items : TimestampedItems H) (oldest : Nat) : TimestampedItems H :=
  items.filter fun entry => oldest ≤ entry.2

end TimestampedItems

/-- `prioritized_item_id`, with a time in microseconds. -/
structure PrioritizedItem (H : Type) where
  item : ItemId H
  sequenceNumber : Nat
  timestamp : Nat

/-- Blocks first, otherwise the items in the order of their numbers. -/
def PrioritizedItem.precedes (first second : PrioritizedItem H) : Bool :=
  if first.item.itemType ≠ second.item.itemType then
    second.item.itemType < first.item.itemType
  else first.sequenceNumber < second.sequenceNumber

/-- The fields of `peer_connection` that are used here. `syncing` is an open request of the
synchronization. -/
structure PeerConnection (H : Type) where
  peerNeedsSyncItemsFromUs : Bool
  syncing : Bool
  inventoryPeerAdvertisedToUs : TimestampedItems H
  inventoryAdvertisedToPeer : TimestampedItems H
  itemsRequestedFromPeer : TimestampedItems H

def PeerConnection.new : PeerConnection H :=
  { peerNeedsSyncItemsFromUs := true, syncing := false, inventoryPeerAdvertisedToUs := [],
    inventoryAdvertisedToPeer := [], itemsRequestedFromPeer := [] }

namespace PeerConnection

def idle (peer : PeerConnection H) : Bool :=
  peer.itemsRequestedFromPeer.isEmpty && !peer.syncing

/-- `is_inventory_advertised_to_us_list_full_for_transactions` -/
def isListFullForTransactions (peer : PeerConnection H) : Bool :=
  2 * 1000 * 60 < peer.inventoryPeerAdvertisedToUs.length

/-- `is_inventory_advertised_to_us_list_full` -/
def isListFull (peer : PeerConnection H) : Bool :=
  2 * 1000 * 60 + (2 + 1) * 60 / 3 < peer.inventoryPeerAdvertisedToUs.length

/-- `clear_old_inventory` -/
def clearOldInventory (now : Nat) (peer : PeerConnection H) : PeerConnection H :=
  let oldest := (now - 2 * 60 * 1000000) / 1000000
  { peer with
    inventoryAdvertisedToPeer := peer.inventoryAdvertisedToPeer.since oldest
    inventoryPeerAdvertisedToUs := peer.inventoryPeerAdvertisedToUs.since oldest }

end PeerConnection

/-- The fields of `node_impl` that are used here. Connections have numbers, and no number is used
twice; `closingConnections` are both those that are closing and those that are terminating. -/
structure NodeImpl (H : Type) where
  now : Nat
  recentBlockIntervalInSeconds : Nat
  nextConnection : Nat
  activeConnections : List Nat
  closingConnections : List Nat
  peers : Nat → PeerConnection H
  itemsToFetch : List (PrioritizedItem H)
  sequenceCounter : Nat
  recentlyFailedItems : TimestampedItems H
  newInventory : List (ItemId H)
  beingProcessed : List H
  handling : List (Nat × ItemId H)

/-- What a node does: messages that it sends, answers that it takes, items that it drops from
the list of items to fetch, and items that it has accepted. -/
inductive Action (H : Type) where
  | fetch (peer : Nat) (item : ItemId H)
  | advertise (peer : Nat) (item : ItemId H)
  | received (peer : Nat) (item : ItemId H)
  | unavailable (peer : Nat) (item : ItemId H)
  | expired (item : ItemId H)
  | contained (item : ItemId H)
  | broadcast (item : ItemId H)
  deriving DecidableEq

/-- How the delegate ends. A rejected block takes other peers with it that offered it. -/
inductive Verdict (H : Type) where
  | accepted (contained : List H)
  | unlinkable
  | rejected (others : List Nat)

/-- What can happen to a node. -/
inductive Event (H : Type) where
  | tick (elapsed : Nat)
  | connected
  | syncState (peer : Nat) (needsItems syncing : Bool)
  | inventory (peer : Nat) (itemType : Nat) (hashes : List H)
  | notAvailable (peer : Nat) (item : ItemId H)
  | message (peer : Nat) (item : ItemId H) (recentlyAccepted : Bool)
  | handled (peer : Nat) (item : ItemId H) (verdict : Verdict H)
  | broadcast (item : ItemId H)
  | fetchItems (order : List Nat)
  | advertiseInventory
  | disconnect (peer : Nat)
  | closed (peer : Nat)
  | forgetFailed

namespace NodeImpl

variable (node : NodeImpl H)

omit [DecidableEq H] in
/-- The peers whose messages are handled. -/
def live (peer : Nat) : Bool :=
  node.activeConnections.contains peer || node.closingConnections.contains peer

omit [DecidableEq H] in
def setPeer (peer : Nat) (change : PeerConnection H → PeerConnection H) : NodeImpl H :=
  { node with peers := Function.update node.peers peer (change (node.peers peer)) }

omit [DecidableEq H] in
/-- `clear_old_inventory` for every active peer. -/
def clearActive : NodeImpl H :=
  { node with peers := fun peer =>
      if node.activeConnections.contains peer then (node.peers peer).clearOldInventory node.now
      else node.peers peer }

def isToFetch (item : ItemId H) : Bool := node.itemsToFetch.any fun entry => entry.item = item

/-- Insertion into `_items_to_fetch`, where an item stands once. -/
def insertToFetch (item : ItemId H) : NodeImpl H :=
  let new := { item := item, sequenceNumber := node.sequenceCounter, timestamp := node.now }
  { node with
    itemsToFetch :=
      if node.isToFetch item then node.itemsToFetch
      else node.itemsToFetch.takeWhile (fun entry => !new.precedes entry) ++
        new :: node.itemsToFetch.dropWhile (fun entry => !new.precedes entry)
    sequenceCounter := node.sequenceCounter + 1 }

def removeToFetch (item : ItemId H) : NodeImpl H :=
  { node with itemsToFetch := node.itemsToFetch.filter fun entry => entry.item ≠ item }

/-- `is_item_in_any_peers_inventory` -/
def isItemInAnyPeersInventory (item : ItemId H) : Bool :=
  node.activeConnections.any fun peer => (node.peers peer).inventoryPeerAdvertisedToUs.has item

/-- The loop of `on_item_ids_inventory_message`. -/
def noteInventory (peer itemType : Nat) : List H → NodeImpl H → NodeImpl H
  | [], node => node
  | itemHash :: rest, node =>
    let item : ItemId H := { itemType := itemType, itemHash := itemHash }
    if itemHash ∈ node.beingProcessed then noteInventory peer itemType rest node
    else if item ∈ node.newInventory then noteInventory peer itemType rest node
    else if node.activeConnections.any (fun other =>
        (node.peers other).inventoryAdvertisedToPeer.has item) then
      noteInventory peer itemType rest node
    else if (itemType = trxMessageType ∧ (node.peers peer).isListFullForTransactions) ∨
        (node.peers peer).isListFull then node
    else
      let requested := node.activeConnections.any fun other =>
        (node.peers other).itemsRequestedFromPeer.has item
      let node := node.setPeer peer fun connection =>
        { connection with inventoryPeerAdvertisedToUs :=
            connection.inventoryPeerAdvertisedToUs.add item (node.now / 1000000) }
      if requested then noteInventory peer itemType rest node
      else if node.recentlyFailedItems.has item then noteInventory peer itemType rest node
      else if node.isToFetch item then
        noteInventory peer itemType rest { node with
          itemsToFetch := node.itemsToFetch.map fun entry =>
            if entry.item = item then { entry with timestamp := node.now } else entry }
      else noteInventory peer itemType rest (node.insertToFetch item)

/-- A request is over. -/
def answered (peer : Nat) (item : ItemId H) : NodeImpl H :=
  node.setPeer peer fun connection =>
    { connection with itemsRequestedFromPeer := connection.itemsRequestedFromPeer.without item }

/-- `on_item_not_available_message` for an item of normal operation. -/
def onItemNotAvailable (peer : Nat) (item : ItemId H) : NodeImpl H :=
  let node := (node.answered peer item).setPeer peer fun connection =>
    { connection with
      inventoryPeerAdvertisedToUs := connection.inventoryPeerAdvertisedToUs.without item }
  if node.isItemInAnyPeersInventory item then node.insertToFetch item else node

/-- `broadcast` -/
def addNewInventory (item : ItemId H) : NodeImpl H :=
  { node with newInventory := if item ∈ node.newInventory then node.newInventory
                              else node.newInventory ++ [item] }

omit [DecidableEq H] in
/-- `disconnect_from_peer` and `move_peer_to_terminating_list` -/
def disconnect (peer : Nat) : NodeImpl H :=
  { node with
    activeConnections := node.activeConnections.filter (· ≠ peer)
    closingConnections := peer :: node.closingConnections.filter (· ≠ peer) }

/-- The loop of `on_connection_closed` over the items that were requested. -/
def reschedule : TimestampedItems H → NodeImpl H → NodeImpl H
  | [], node => node
  | (item, _) :: rest, node =>
    reschedule rest (if node.isItemInAnyPeersInventory item then node.insertToFetch item else node)

/-- `on_connection_closed` -/
def onConnectionClosed (peer : Nat) : NodeImpl H :=
  reschedule (node.peers peer).itemsRequestedFromPeer { node with
    activeConnections := node.activeConnections.filter (· ≠ peer)
    closingConnections := node.closingConnections.filter (· ≠ peer) }

/-- The loop of `fetch_items_loop` over the items to fetch. A peer that has been given an item in
this round is asked for no other. -/
def fetchFrom (oldest : Nat) : List (PrioritizedItem H) → List Nat → NodeImpl H →
    NodeImpl H × List (Action H)
  | [], _, node => (node, [])
  | entry :: rest, free, node =>
    if entry.timestamp < oldest then
      let later := fetchFrom oldest rest free (node.removeToFetch entry.item)
      (later.1, .expired entry.item :: later.2)
    else
      match free.find? fun peer => (node.peers peer).inventoryPeerAdvertisedToUs.has entry.item with
      | none => fetchFrom oldest rest free node
      | some peer =>
        let requested := (node.removeToFetch entry.item).setPeer peer fun connection =>
          { connection with itemsRequestedFromPeer :=
              connection.itemsRequestedFromPeer.add entry.item node.now }
        let later := fetchFrom oldest rest (free.filter (· ≠ peer)) requested
        (later.1, .fetch peer entry.item :: later.2)

/-- An iteration of `fetch_items_loop`. -/
def fetchItems (order : List Nat) : NodeImpl H × List (Action H) :=
  fetchFrom (node.now - node.recentBlockIntervalInSeconds * 20 * 1000000) node.itemsToFetch
    (order.filter fun peer => node.activeConnections.contains peer && (node.peers peer).idle) node

/-- The items that a peer has not been told of and has not told of. -/
def toAdvertise (connection : PeerConnection H) (items : List (ItemId H)) : List (ItemId H) :=
  if connection.peerNeedsSyncItemsFromUs then []
  else items.filter fun item => !connection.inventoryAdvertisedToPeer.has item &&
    !connection.inventoryPeerAdvertisedToUs.has item

/-- An iteration of `advertise_inventory_loop`. -/
def advertiseInventory : NodeImpl H × List (Action H) :=
  let inform (connection : PeerConnection H) : PeerConnection H :=
    { connection with inventoryAdvertisedToPeer :=
        connection.inventoryAdvertisedToPeer ++
          (toAdvertise connection node.newInventory).map fun item => (item, node.now / 1000000) }
  ({ node with
      newInventory := []
      peers := fun peer =>
        if node.activeConnections.contains peer then
          (inform (node.peers peer)).clearOldInventory node.now
        else node.peers peer },
    node.activeConnections.flatMap fun peer =>
      (toAdvertise (node.peers peer) node.newInventory).map fun item => .advertise peer item)

/-- `process_block_message` and `process_ordinary_message`: only what was requested is handed to
the delegate. A block that was accepted recently is not handed over again. -/
def onMessage (peer : Nat) (item : ItemId H) (recentlyAccepted : Bool) :
    NodeImpl H × List (Action H) :=
  if (node.peers peer).itemsRequestedFromPeer.has item then
    let node := node.answered peer item
    if item.itemType = blockMessageType then
      if recentlyAccepted then
        (node.clearActive.addNewInventory item, [.received peer item, .broadcast item])
      else
        ({ node with
            beingProcessed := item.itemHash :: node.beingProcessed
            handling := (peer, item) :: node.handling }, [.received peer item])
    else ({ node with handling := (peer, item) :: node.handling }, [.received peer item])
  else (node.disconnect peer, [])

/-- The transactions of a block need not be fetched. -/
def forgetContained : List H → NodeImpl H → NodeImpl H
  | [], node => node
  | itemHash :: rest, node =>
    forgetContained rest (node.removeToFetch { itemType := trxMessageType, itemHash := itemHash })

/-- What follows the call of the delegate. After a block that was not accepted its message stays
among those being processed. -/
def onHandled (peer : Nat) (item : ItemId H) (verdict : Verdict H) : NodeImpl H × List (Action H) :=
  let node := { node with handling := node.handling.erase (peer, item) }
  if item.itemType = blockMessageType then
    match verdict with
    | .accepted contained =>
      let node := forgetContained contained
        { node with beingProcessed := node.beingProcessed.filter (· ≠ item.itemHash) }
      (node.clearActive.addNewInventory item,
        contained.map (fun itemHash =>
          .contained { itemType := trxMessageType, itemHash := itemHash }) ++ [.broadcast item])
    | .unlinkable => (node.setPeer peer fun connection => { connection with syncing := true }, [])
    | .rejected others => ((peer :: others.filter node.live).foldl disconnect node, [])
  else
    match verdict with
    | .accepted _ => (node.addNewInventory item, [.broadcast item])
    | _ => ({ node with recentlyFailedItems := node.recentlyFailedItems.add item (node.now / 1000000) },
        [])

/-- One event. A message of a connection that is closed is not handled. -/
def step : Event H → NodeImpl H × List (Action H)
  | .tick elapsed => ({ node with now := node.now + elapsed }, [])
  | .connected =>
    ({ node with
        nextConnection := node.nextConnection + 1
        activeConnections := node.activeConnections ++ [node.nextConnection]
        peers := Function.update node.peers node.nextConnection .new }, [])
  | .syncState peer needsItems syncing =>
    (node.setPeer peer fun connection =>
      { connection with peerNeedsSyncItemsFromUs := needsItems, syncing := syncing }, [])
  | .inventory peer itemType hashes =>
    if node.live peer then
      (noteInventory peer itemType hashes
        (node.setPeer peer (PeerConnection.clearOldInventory node.now)), [])
    else (node, [])
  | .notAvailable peer item =>
    if node.live peer ∧ (node.peers peer).itemsRequestedFromPeer.has item then
      (node.onItemNotAvailable peer item, [.unavailable peer item])
    else (node, [])
  | .message peer item recentlyAccepted =>
    if node.live peer then node.onMessage peer item recentlyAccepted else (node, [])
  | .handled peer item verdict =>
    if (peer, item) ∈ node.handling then node.onHandled peer item verdict else (node, [])
  | .broadcast item => (node.addNewInventory item, [.broadcast item])
  | .fetchItems order => node.fetchItems order
  | .advertiseInventory => node.advertiseInventory
  | .disconnect peer => if node.live peer then (node.disconnect peer, []) else (node, [])
  | .closed peer => if node.live peer then (node.onConnectionClosed peer, []) else (node, [])
  | .forgetFailed =>
    ({ node with recentlyFailedItems :=
        node.recentlyFailedItems.since ((node.now - 15 * 60 * 1000000) / 1000000) }, [])

/-- Events one after the other, and all that the node does meanwhile. -/
def run : List (Event H) → NodeImpl H → NodeImpl H × List (Action H)
  | [], node => (node, [])
  | event :: rest, node =>
    let first := node.step event
    let later := run rest first.1
    (later.1, first.2 ++ later.2)

omit [DecidableEq H] in
/-- A node that has been started. -/
def started (now recentBlockIntervalInSeconds : Nat) : NodeImpl H :=
  { now := now, recentBlockIntervalInSeconds := recentBlockIntervalInSeconds, nextConnection := 0,
    activeConnections := [], closingConnections := [], peers := fun _ => .new, itemsToFetch := [],
    sequenceCounter := 0, recentlyFailedItems := [], newInventory := [], beingProcessed := [],
    handling := [] }

end NodeImpl

end DeipChain.Net
