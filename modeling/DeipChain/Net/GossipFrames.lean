import DeipChain.Net.Gossip

/-!
# What the parts of a step change

Most of what a node does leaves the requests as they are and takes nothing off the list of items
to fetch (`Frame`), and most of that offers nothing anew (`Quiet`). An inventory message offers
items anew, each with something under way for it (`Noted`).
-/
namespace DeipChain.Net

variable {H : Type} [DecidableEq H]

namespace TimestampedItems

variable (items : TimestampedItems H) (item other : ItemId H)

theorem has_iff : items.has item ↔ ∃ entry ∈ items, entry.1 = item := by
  simp [has]

@[simp]
theorem has_nil : has ([] : TimestampedItems H) item = false := rfl

theorem has_cons (entry : ItemId H × Nat) :
    has (entry :: items) item ↔ entry.1 = item ∨ items.has item := by
  simp [has]

@[simp]
theorem has_append (more : TimestampedItems H) :
    has (items ++ more) item = (items.has item || more.has item) := List.any_append

@[simp]
theorem has_add (time : Nat) : (items.add other time).has item = true ↔
    item = other ∨ items.has item = true := by
  unfold add
  split
  case isTrue present =>
    refine ⟨.inr, fun cases => cases.elim (fun same => ?_) id⟩
    rwa [same]
  case isFalse =>
    rw [has_append, Bool.or_eq_true, has_cons, has_nil, or_comm, eq_comm]
    exact or_congr_left (or_iff_left Bool.false_ne_true)

@[simp]
theorem has_without : (items.without other).has item = true ↔
    item ≠ other ∧ items.has item = true := by
  simp only [without, has_iff, List.mem_filter, decide_eq_true_eq]
  constructor
  · rintro ⟨entry, ⟨member, different⟩, rfl⟩
    exact ⟨different, entry, member, rfl⟩
  · rintro ⟨different, entry, member, rfl⟩
    exact ⟨entry, ⟨member, different⟩, rfl⟩

theorem has_of_since (oldest : Nat) (present : (items.since oldest).has item) :
    items.has item := by
  obtain ⟨entry, member, same⟩ := (has_iff ..).mp present
  exact (has_iff ..).mpr ⟨entry, (List.mem_filter.mp member).1, same⟩

end TimestampedItems

namespace NodeImpl

variable {node next : NodeImpl H} {item other : ItemId H} {peer : Nat}

/-- The peer has offered the item. -/
def offers (node : NodeImpl H) (peer : Nat) (item : ItemId H) : Bool :=
  (node.peers peer).inventoryPeerAdvertisedToUs.has item

/-- The item has been requested from the peer. -/
def asks (node : NodeImpl H) (peer : Nat) (item : ItemId H) : Bool :=
  (node.peers peer).itemsRequestedFromPeer.has item

theorem offered_iff : node.isItemInAnyPeersInventory item ↔
    ∃ peer ∈ node.activeConnections, node.offers peer item := by
  simp [isItemInAnyPeersInventory, offers]

omit [DecidableEq H] in
theorem live_iff : node.live peer ↔
    peer ∈ node.activeConnections ∨ peer ∈ node.closingConnections := by
  simp [live]

omit [DecidableEq H] in
@[simp]
theorem peers_setPeer (change : PeerConnection H → PeerConnection H) :
    (node.setPeer peer change).peers =
      Function.update node.peers peer (change (node.peers peer)) := rfl

theorem isToFetch_insertToFetch : (node.insertToFetch other).isToFetch item ↔
    item = other ∨ node.isToFetch item := by
  unfold insertToFetch
  split
  case isTrue present =>
    refine ⟨.inr, fun cases => cases.elim (fun same => ?_) id⟩
    rwa [same]
  case isFalse =>
    have parts := List.takeWhile_append_dropWhile (l := node.itemsToFetch)
      (p := fun entry => !PrioritizedItem.precedes
        { item := other, sequenceNumber := node.sequenceCounter, timestamp := node.now } entry)
    rw [isToFetch, isToFetch]
    nth_rewrite 3 [← parts]
    simp only [List.any_append, List.any_cons, Bool.or_eq_true, decide_eq_true_eq]
    tauto

theorem isToFetch_removeToFetch : (node.removeToFetch other).isToFetch item ↔
    item ≠ other ∧ node.isToFetch item := by
  simp only [isToFetch, removeToFetch, List.any_eq_true, List.mem_filter, decide_eq_true_eq]
  constructor
  · rintro ⟨entry, ⟨member, different⟩, rfl⟩
    exact ⟨different, entry, member, rfl⟩
  · rintro ⟨different, entry, member, rfl⟩
    exact ⟨entry, ⟨member, different⟩, rfl⟩

/-- No connection has a number that is still to be given. -/
def Numbered (node : NodeImpl H) : Prop := ∀ peer, node.live peer → peer < node.nextConnection

/-- What most changes of a node leave as it is: the requests stay, and nothing leaves the list of
items to fetch. -/
structure Frame (node next : NodeImpl H) : Prop where
  numbers : next.nextConnection = node.nextConnection
  active : ∀ peer ∈ next.activeConnections, peer ∈ node.activeConnections
  live : ∀ peer, node.live peer → next.live peer
  numbered : node.Numbered → next.Numbered
  asks : ∀ peer item, next.asks peer item = node.asks peer item
  toFetch : ∀ item, node.isToFetch item → next.isToFetch item
  failed : ∀ item, next.recentlyFailedItems.has item → node.recentlyFailedItems.has item
  handling : ∀ entry ∈ next.handling, entry ∈ node.handling

/-- A change after which nothing is offered that was not. -/
structure Quiet (node next : NodeImpl H) : Prop extends Frame node next where
  offers : ∀ peer item, next.offers peer item → node.offers peer item

theorem Frame.refl (node : NodeImpl H) : Frame node node :=
  ⟨rfl, fun _ => id, fun _ => id, id, fun _ _ => rfl, fun _ => id, fun _ => id, fun _ => id⟩

theorem Quiet.refl (node : NodeImpl H) : Quiet node node := ⟨.refl node, fun _ _ => id⟩

theorem Frame.trans {last : NodeImpl H} (first : Frame node next) (second : Frame next last) :
    Frame node last where
  numbers := second.numbers.trans first.numbers
  active peer member := first.active peer (second.active peer member)
  live peer alive := second.live peer (first.live peer alive)
  numbered numbered := second.numbered (first.numbered numbered)
  asks peer item := (second.asks peer item).trans (first.asks peer item)
  toFetch item waiting := second.toFetch item (first.toFetch item waiting)
  failed item failed := first.failed item (second.failed item failed)
  handling entry member := first.handling entry (second.handling entry member)

theorem Quiet.trans {last : NodeImpl H} (first : Quiet node next) (second : Quiet next last) :
    Quiet node last :=
  ⟨first.toFrame.trans second.toFrame, fun peer item offered =>
    first.offers peer item (second.offers peer item offered)⟩

/-- A peer that keeps its requests and offers nothing anew. -/
theorem quiet_peers (peers : Nat → PeerConnection H)
    (asks : ∀ peer, (peers peer).itemsRequestedFromPeer =
      (node.peers peer).itemsRequestedFromPeer)
    (offers : ∀ peer item, (peers peer).inventoryPeerAdvertisedToUs.has item →
      node.offers peer item) : Quiet node { node with peers := peers } :=
  { Quiet.refl node with
    asks := fun peer item => by rw [NodeImpl.asks, NodeImpl.asks, asks]
    offers := offers }

theorem quiet_setPeer (change : PeerConnection H → PeerConnection H)
    (asks : (change (node.peers peer)).itemsRequestedFromPeer =
      (node.peers peer).itemsRequestedFromPeer)
    (offers : ∀ item, (change (node.peers peer)).inventoryPeerAdvertisedToUs.has item →
      node.offers peer item) : Quiet node (node.setPeer peer change) := by
  refine quiet_peers _ (fun other => ?_) fun other item => ?_
  · by_cases same : other = peer
    · rw [same, Function.update_self, asks]
    · rw [Function.update_of_ne same]
  · by_cases same : other = peer
    · rw [same, Function.update_self]
      exact offers item
    · rw [Function.update_of_ne same]
      exact id

theorem quiet_withdrawn (node : NodeImpl H) (peer : Nat) (item : ItemId H) :
    Quiet node (node.setPeer peer fun connection => { connection with
      inventoryPeerAdvertisedToUs := connection.inventoryPeerAdvertisedToUs.without item }) :=
  quiet_setPeer _ rfl fun _ present => ((TimestampedItems.has_without ..).mp present).2

theorem quiet_insertToFetch (node : NodeImpl H) (item : ItemId H) :
    Quiet node (node.insertToFetch item) :=
  { Quiet.refl node with
    toFetch := fun _ waiting => isToFetch_insertToFetch.mpr (.inr waiting) }

/-- A peer that offers an item to be fetched again makes the entry younger. -/
theorem quiet_touch (node : NodeImpl H) (item : ItemId H) (time : Nat) :
    Quiet node { node with itemsToFetch := node.itemsToFetch.map fun entry =>
      if entry.item = item then { entry with timestamp := time } else entry } := by
  refine { Quiet.refl node with toFetch := fun other waiting => ?_ }
  obtain ⟨entry, member, same⟩ := List.any_eq_true.mp waiting
  refine List.any_eq_true.mpr ⟨_, List.mem_map_of_mem member, ?_⟩
  split <;> exact same

theorem quiet_addNewInventory (node : NodeImpl H) (item : ItemId H) :
    Quiet node (node.addNewInventory item) := { Quiet.refl node with }

theorem quiet_clearActive (node : NodeImpl H) : Quiet node node.clearActive := by
  refine quiet_peers _ (fun peer => ?_) fun peer item => ?_
  · split <;> rfl
  · split
    · exact TimestampedItems.has_of_since _ _ _
    · exact id

/-- An accepted block is to be advertised. -/
theorem quiet_tell (node : NodeImpl H) (item : ItemId H) :
    Quiet node (node.clearActive.addNewInventory item) :=
  (quiet_clearActive node).trans (quiet_addNewInventory _ item)

/-- Disconnecting a peer, which may have closed its connection in the meantime. -/
theorem quiet_disconnect (known : node.Numbered → peer < node.nextConnection) :
    Quiet node (node.disconnect peer) := by
  have live_disconnect (other : Nat) :
      (node.disconnect peer).live other ↔ other = peer ∨ node.live other := by
    by_cases same : other = peer <;> simp [disconnect, live_iff, same]
  refine { Quiet.refl node with active := ?_, live := ?_, numbered := ?_ }
  · exact fun other member => (List.mem_filter.mp member).1
  · exact fun other alive => (live_disconnect other).mpr (.inr alive)
  · intro numbered other alive
    rcases (live_disconnect other).mp alive with rfl | old
    · exact known numbered
    · exact numbered other old

theorem quiet_disconnect_all {peers : List Nat}
    (known : ∀ peer ∈ peers, node.Numbered → peer < node.nextConnection) :
    Quiet node (peers.foldl disconnect node) := by
  induction peers generalizing node with
  | nil => exact .refl node
  | cons peer rest ih =>
    have first := quiet_disconnect (known peer List.mem_cons_self)
    refine first.trans (ih fun other member numbered => ?_)
    exact known other (List.mem_cons_of_mem _ member) fun peer alive =>
      numbered peer (first.live peer alive)

theorem quiet_erased (node : NodeImpl H) (entry : Nat × ItemId H) :
    Quiet node { node with handling := node.handling.erase entry } :=
  { Quiet.refl node with handling := fun _ => List.mem_of_mem_erase }

/-- The delegate cannot link a block, and the node asks the peer for what comes before it. -/
theorem quiet_unlinkable (node : NodeImpl H) (peer : Nat) (item : ItemId H) :
    Quiet node (setPeer { node with handling := node.handling.erase (peer, item) } peer
      fun connection => { connection with syncing := true }) :=
  (quiet_erased node (peer, item)).trans (quiet_setPeer _ rfl fun _ => id)

/-- The delegate rejects a block, and the peers that offered it are disconnected. -/
theorem quiet_rejected (known : node.Numbered → peer < node.nextConnection) (item : ItemId H)
    (others : List Nat) :
    Quiet node ((peer :: others.filter fun other => node.live other).foldl disconnect
      { node with handling := node.handling.erase (peer, item) }) := by
  refine (quiet_erased node (peer, item)).trans (quiet_disconnect_all fun other found numbered => ?_)
  rcases List.mem_cons.mp found with rfl | found
  · exact known numbered
  · exact numbered other (List.mem_filter.mp found).2

theorem quiet_advertise (node : NodeImpl H) : Quiet node node.advertiseInventory.1 := by
  have told : Quiet node { node with peers := node.advertiseInventory.1.peers } := by
    refine quiet_peers _ (fun peer => ?_) fun peer item => ?_ <;> dsimp only [advertiseInventory]
    · split <;> rfl
    · split
      · exact TimestampedItems.has_of_since _ _ _
      · exact id
  exact { told with }

/-- Something is under way for the item: it is to be fetched, it is requested from an active
peer, or it has failed recently. -/
def UnderWay (node : NodeImpl H) (item : ItemId H) : Prop :=
  node.isToFetch item ∨ (∃ peer ∈ node.activeConnections, node.asks peer item) ∨
    node.recentlyFailedItems.has item

/-- What the loop over the items that a peer offers adds to the inventory of that peer. -/
structure Noted (peer itemType : Nat) (hashes : List H) (node next : NodeImpl H) : Prop
    extends Frame node next where
  active' : next.activeConnections = node.activeConnections
  failed' : next.recentlyFailedItems = node.recentlyFailedItems
  new : next.newInventory = node.newInventory
  offers : ∀ other item, next.offers other item → node.offers other item ∨
    (other = peer ∧ item.itemType = itemType ∧ item.itemHash ∈ hashes) ∧ next.UnderWay item

/-- An item that is passed over. -/
theorem Noted.skip {itemType : Nat} {itemHash : H} {hashes : List H}
    (later : Noted peer itemType hashes node next) :
    Noted peer itemType (itemHash :: hashes) node next :=
  { later with
    offers := fun other item offered => (later.offers other item offered).imp_right
      (And.imp_left fun told => ⟨told.1, told.2.1, List.mem_cons_of_mem _ told.2.2⟩) }

theorem UnderWay.frame (frame : Frame node next)
    (active : next.activeConnections = node.activeConnections)
    (failed : next.recentlyFailedItems = node.recentlyFailedItems)
    (under : node.UnderWay item) : next.UnderWay item := by
  refine under.imp (frame.toFetch item) (Or.imp (fun requested => ?_) fun failure => ?_)
  · obtain ⟨peer, member, asked⟩ := requested
    exact ⟨peer, active ▸ member, (frame.asks peer item).trans asked⟩
  · rwa [failed]

/-- An item that is added to the inventory of the peer, with something under way for it. -/
theorem Noted.add {itemType time : Nat} {itemHash : H} {hashes : List H} {marked : NodeImpl H}
    (marks : marked = node.setPeer peer fun connection =>
      { connection with inventoryPeerAdvertisedToUs :=
          connection.inventoryPeerAdvertisedToUs.add ⟨itemType, itemHash⟩ time })
    {mid : NodeImpl H} (quiet : Quiet marked mid)
    (active : mid.activeConnections = node.activeConnections)
    (failed : mid.recentlyFailedItems = node.recentlyFailedItems)
    (new : mid.newInventory = node.newInventory)
    (under : mid.UnderWay ⟨itemType, itemHash⟩)
    (later : Noted peer itemType hashes mid next) :
    Noted peer itemType (itemHash :: hashes) node next := by
  have first : Frame node marked ∧ ∀ other item, marked.offers other item →
      node.offers other item ∨ other = peer ∧ item = ⟨itemType, itemHash⟩ := by
    subst marks
    refine ⟨{ Frame.refl node with asks := fun other item => ?_ }, fun other item offered => ?_⟩
    all_goals by_cases same : other = peer
    · simp [NodeImpl.asks, same]
    · simp [NodeImpl.asks, same]
    · rw [NodeImpl.offers, peers_setPeer, same, Function.update_self,
        TimestampedItems.has_add] at offered
      rw [same]
      exact offered.symm.imp_right fun this => ⟨rfl, this⟩
    · rw [NodeImpl.offers, peers_setPeer, Function.update_of_ne same] at offered
      exact .inl offered
  refine { first.1.trans (quiet.toFrame.trans later.toFrame) with
    active' := later.active'.trans active
    failed' := later.failed'.trans failed
    new := later.new.trans new
    offers := fun other item offered => ?_ }
  rcases later.offers other item offered with old | ⟨⟨rfl, rfl, member⟩, found⟩
  · rcases first.2 other item (quiet.offers other item old) with old | ⟨rfl, rfl⟩
    · exact .inl old
    · exact .inr ⟨⟨rfl, rfl, List.mem_cons_self⟩,
        under.frame later.toFrame later.active' later.failed'⟩
  · exact .inr ⟨⟨rfl, rfl, List.mem_cons_of_mem _ member⟩, found⟩

theorem noted_noteInventory (peer itemType : Nat) (hashes : List H) (node : NodeImpl H) :
    Noted peer itemType hashes node (noteInventory peer itemType hashes node) := by
  induction hashes generalizing node with
  | nil =>
    exact { Frame.refl node with
      active' := rfl, failed' := rfl, new := rfl, offers := fun _ _ => .inl }
  | cons itemHash rest ih =>
    unfold noteInventory
    dsimp only
    split
    · exact (ih node).skip
    split
    · exact (ih node).skip
    split
    · exact (ih node).skip
    split
    · exact { Frame.refl node with
        active' := rfl, failed' := rfl, new := rfl, offers := fun _ _ => .inl }
    split
    case isTrue requested =>
      obtain ⟨other, member, asked⟩ := List.any_eq_true.mp requested
      refine .add rfl (.refl _) rfl rfl rfl (.inr (.inl ⟨other, member, ?_⟩)) (ih _)
      by_cases same : other = peer
      · subst same
        simpa [asks] using asked
      · simpa [asks, same] using asked
    split
    case isTrue failed => exact .add rfl (.refl _) rfl rfl rfl (.inr (.inr failed)) (ih _)
    split
    case isTrue waiting =>
      have young := quiet_touch (node.setPeer peer fun connection =>
        { connection with inventoryPeerAdvertisedToUs :=
            connection.inventoryPeerAdvertisedToUs.add ⟨itemType, itemHash⟩ (node.now / 1000000) })
        ⟨itemType, itemHash⟩ node.now
      exact .add rfl young rfl rfl rfl (.inl (young.toFetch _ waiting)) (ih _)
    case isFalse =>
      exact .add rfl (quiet_insertToFetch _ _) rfl rfl rfl
        (.inl (isToFetch_insertToFetch.mpr (.inl rfl))) (ih _)

theorem quiet_clear (node : NodeImpl H) (peer : Nat) :
    Quiet node (node.setPeer peer (PeerConnection.clearOldInventory node.now)) :=
  quiet_setPeer _ rfl fun _ => TimestampedItems.has_of_since _ _ _

/-- The loop over the items of a closed connection: those that are still offered are to be
fetched again. -/
theorem quiet_reschedule (items : TimestampedItems H) (node : NodeImpl H) :
    Quiet node (reschedule items node) ∧ ∀ item, items.has item →
      node.isItemInAnyPeersInventory item → (reschedule items node).isToFetch item := by
  induction items generalizing node with
  | nil => exact ⟨.refl node, fun _ none => absurd none Bool.false_ne_true⟩
  | cons entry rest ih =>
    rw [reschedule]
    split
    case isTrue offered =>
      obtain ⟨quiet, again⟩ := ih (node.insertToFetch entry.1)
      refine ⟨(quiet_insertToFetch node entry.1).trans quiet, fun item member found => ?_⟩
      rcases (TimestampedItems.has_cons ..).mp member with rfl | later
      · exact quiet.toFetch _ (isToFetch_insertToFetch.mpr (.inl rfl))
      · exact again item later found
    case isFalse unoffered =>
      obtain ⟨quiet, again⟩ := ih node
      refine ⟨quiet, fun item member offered => ?_⟩
      rcases (TimestampedItems.has_cons ..).mp member with rfl | later
      · exact absurd offered unoffered
      · exact again item later offered

theorem peers_connected : (node.step .connected).1.peers node.nextConnection = .new :=
  Function.update_self ..

theorem peers_connected_of_ne (apart : peer ≠ node.nextConnection) :
    (node.step .connected).1.peers peer = node.peers peer := Function.update_of_ne apart ..

/-- The node without the peer whose connection is closed. -/
abbrev withoutPeer (node : NodeImpl H) (peer : Nat) : NodeImpl H :=
  { node with
    activeConnections := node.activeConnections.filter (· ≠ peer)
    closingConnections := node.closingConnections.filter (· ≠ peer) }

omit [DecidableEq H] in
theorem live_withoutPeer {other : Nat} :
    (node.withoutPeer peer).live other ↔ node.live other ∧ other ≠ peer := by
  simp only [live_iff, withoutPeer, List.mem_filter, decide_eq_true_eq]
  tauto

theorem forgetContained_eq (hashes : List H) (node : NodeImpl H) :
    forgetContained hashes node = { node with
      itemsToFetch := node.itemsToFetch.filter fun entry =>
        entry.item ∉ hashes.map (ItemId.mk trxMessageType) } := by
  induction hashes generalizing node with
  | nil =>
    simp only [List.map_nil, List.not_mem_nil, not_false_eq_true, decide_true]
    rw [List.filter_eq_self.mpr fun _ _ => rfl]
    rfl
  | cons itemHash rest ih =>
    rw [forgetContained, ih, removeToFetch]
    dsimp only
    rw [List.filter_filter]
    congr 2
    funext entry
    simp [eq_comm, Bool.and_comm]

end NodeImpl

/-- The actions that begin a request or end it. -/
def Action.ofRequest : Action H → Bool
  | .fetch .. | .received .. | .unavailable .. => true
  | _ => false

/-- The events that leave the requests and the offers as they are. -/
def Event.isQuiet : Event H → Bool
  | .tick _ | .syncState .. | .broadcast _ | .advertiseInventory | .disconnect _ | .forgetFailed =>
    true
  | _ => false

theorem NodeImpl.quiet_step (node : NodeImpl H) {event : Event H} (quiet : event.isQuiet) :
    Quiet node (node.step event).1 ∧ ∀ action ∈ (node.step event).2, action.ofRequest = false := by
  cases event with
  | tick elapsed => exact ⟨{ Quiet.refl node with }, fun _ none => absurd none List.not_mem_nil⟩
  | syncState peer needsItems syncing =>
    have synced := @quiet_setPeer _ _ node peer
      (fun connection => { connection with
        peerNeedsSyncItemsFromUs := needsItems, syncing := syncing }) rfl fun _ => id
    exact ⟨synced, fun _ none => absurd none List.not_mem_nil⟩
  | broadcast item =>
    refine ⟨quiet_addNewInventory node item, fun action member => ?_⟩
    rw [List.mem_singleton.mp member]
    rfl
  | advertiseInventory =>
    refine ⟨quiet_advertise node, fun action member => ?_⟩
    obtain ⟨peer, _, member⟩ := List.mem_flatMap.mp member
    obtain ⟨item, _, rfl⟩ := List.mem_map.mp member
    rfl
  | disconnect peer =>
    rw [step]
    split
    case isTrue alive =>
      exact ⟨quiet_disconnect fun numbered => numbered peer alive,
        fun _ none => absurd none List.not_mem_nil⟩
    case isFalse => exact ⟨.refl node, fun _ none => absurd none List.not_mem_nil⟩
  | forgetFailed =>
    refine ⟨{ Quiet.refl node with failed := fun item => ?_ }, fun _ none =>
      absurd none List.not_mem_nil⟩
    exact TimestampedItems.has_of_since _ _ _
  | _ => exact absurd quiet Bool.false_ne_true

end DeipChain.Net
