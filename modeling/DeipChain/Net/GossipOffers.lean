import DeipChain.Net.GossipRuns

/-!
# What the peers offer

An item that an active peer offers is on the list of items to fetch, or requested from a peer, or
the node has had it: it arrived, it came with a block, it was given by the client, or it waited
too long. The items that are being handled and those that have failed have arrived.
-/
namespace DeipChain.Net

variable {H : Type} [DecidableEq H]

/-- The action after which the item need not be fetched. -/
def Action.settles (item : ItemId H) : Action H → Bool
  | .received _ other | .expired other | .contained other | .broadcast other => other = item
  | _ => false

namespace NodeImpl

variable {node next : NodeImpl H} {item : ItemId H} {peer : Nat} {log actions : List (Action H)}

/-- The item is on the list of items to fetch, or a peer has been asked for it. -/
def Pending (node : NodeImpl H) (item : ItemId H) : Prop :=
  node.isToFetch item ∨ ∃ peer, node.live peer ∧ node.asks peer item

/-- One of the actions settles the item. -/
def Settled (log : List (Action H)) (item : ItemId H) : Prop :=
  ∃ action ∈ log, action.settles item

theorem Settled.left (settled : Settled log item) : Settled (log ++ actions) item := by
  obtain ⟨action, member, settles⟩ := settled
  exact ⟨action, List.mem_append_left _ member, settles⟩

theorem Settled.right (settled : Settled actions item) : Settled (log ++ actions) item := by
  obtain ⟨action, member, settles⟩ := settled
  exact ⟨action, List.mem_append_right _ member, settles⟩

theorem settled_received (member : .received peer item ∈ log) : Settled log item :=
  ⟨_, member, decide_eq_true rfl⟩

structure Attended (node : NodeImpl H) (log : List (Action H)) : Prop where
  failed : ∀ item, node.recentlyFailedItems.has item → Settled log item
  handled : ∀ entry ∈ node.handling, .received entry.1 entry.2 ∈ log
  offered : ∀ item, node.isItemInAnyPeersInventory item → node.Pending item ∨ Settled log item

/-- Nothing that is offered after the change may be lost by it. -/
theorem Attended.keep (attended : Attended node log)
    (failed : ∀ item, next.recentlyFailedItems.has item → node.recentlyFailedItems.has item)
    (handling : ∀ entry ∈ next.handling, entry ∈ node.handling)
    (offered : ∀ item, next.isItemInAnyPeersInventory item → next.Pending item ∨
      Settled (log ++ actions) item ∨ node.isItemInAnyPeersInventory item ∧
        (node.Pending item → next.Pending item ∨ Settled (log ++ actions) item)) :
    Attended next (log ++ actions) where
  failed item present := (attended.failed item (failed item present)).left
  handled entry member := List.mem_append_left _ (attended.handled entry (handling entry member))
  offered item present := by
    rcases offered item present with pending | settled | ⟨old, kept⟩
    · exact .inl pending
    · exact .inr settled
    · exact (attended.offered item old).elim kept fun settled => .inr settled.left

theorem Pending.frame (frame : Frame node next) (pending : node.Pending item) :
    next.Pending item := by
  refine pending.imp (frame.toFetch item) fun requested => ?_
  obtain ⟨peer, alive, asked⟩ := requested
  exact ⟨peer, frame.live peer alive, (frame.asks peer item).trans asked⟩

theorem Quiet.offered (quiet : Quiet node next) (present : next.isItemInAnyPeersInventory item) :
    node.isItemInAnyPeersInventory item := by
  obtain ⟨peer, member, offers⟩ := offered_iff.mp present
  exact offered_iff.mpr ⟨peer, quiet.active peer member, quiet.offers peer item offers⟩

theorem Attended.frame (attended : Attended node log) (quiet : Quiet node next) :
    Attended next (log ++ actions) :=
  attended.keep quiet.failed quiet.handling fun _ present =>
    .inr (.inr ⟨quiet.offered present, fun pending => .inl (pending.frame quiet.toFrame)⟩)

theorem Attended.quiet (attended : Attended node log) (quiet : Quiet node next) :
    Attended next log := by
  have kept : Attended next (log ++ []) := attended.frame quiet
  rwa [List.append_nil] at kept

theorem Attended.noted {itemType : Nat} {hashes : List H} (attended : Attended node log)
    (noted : Noted peer itemType hashes node next) : Attended next (log ++ []) := by
  refine attended.keep noted.failed noted.handling fun item present => ?_
  obtain ⟨other, member, offers⟩ := offered_iff.mp present
  rcases noted.offers other item offers with old | ⟨-, waiting | requested | failed⟩
  · exact .inr (.inr ⟨offered_iff.mpr ⟨other, noted.active other member, old⟩,
      fun pending => .inl (pending.frame noted.toFrame)⟩)
  · exact .inl (.inl waiting)
  · obtain ⟨active, member, asked⟩ := requested
    exact .inl (.inr ⟨active, live_iff.mpr (.inl member), asked⟩)
  · exact .inr (.inl (attended.failed item (noted.failed item failed)).left)

/-- An item that no longer waits, because of what the actions say of it or because a peer is
asked for it. -/
theorem Attended.remove (attended : Attended node log)
    (failed : next.recentlyFailedItems = node.recentlyFailedItems)
    (handling : ∀ entry ∈ next.handling, entry ∈ node.handling)
    (offered : ∀ item, next.isItemInAnyPeersInventory item → node.isItemInAnyPeersInventory item)
    (toFetch : ∀ item, node.isToFetch item → next.Pending item ∨ Settled actions item)
    (asks : ∀ peer item, node.live peer → node.asks peer item →
      next.Pending item ∨ Settled actions item) : Attended next (log ++ actions) := by
  refine attended.keep (fun item => by rw [failed]; exact id) handling fun item present =>
    .inr (.inr ⟨offered item present, fun pending => ?_⟩)
  rcases pending with waiting | ⟨peer, alive, asked⟩
  · exact (toFetch item waiting).imp_right Settled.right
  · exact (asks peer item alive asked).imp_right Settled.right

theorem Attended.fetchFrom (oldest : Nat) (entries : List (PrioritizedItem H)) {free : List Nat}
    (attended : Attended node log) (alive : ∀ peer ∈ free, node.live peer) :
    Attended (fetchFrom oldest entries free node).1
      (log ++ (fetchFrom oldest entries free node).2) := by
  induction entries generalizing node free log with
  | nil => simpa [NodeImpl.fetchFrom] using attended
  | cons entry rest ih =>
    rw [NodeImpl.fetchFrom]
    split
    case isTrue =>
      have first : Attended (node.removeToFetch entry.item) (log ++ [.expired entry.item]) := by
        refine attended.remove rfl (fun _ => id) (fun _ => id) (fun item waiting => ?_)
          fun peer item alive asked => .inl (.inr ⟨peer, alive, asked⟩)
        by_cases same : item = entry.item
        · exact .inr ⟨_, List.mem_singleton_self _, decide_eq_true same.symm⟩
        · exact .inl (.inl (isToFetch_removeToFetch.mpr ⟨same, waiting⟩))
      have later := ih first alive
      rwa [List.append_assoc] at later
    case isFalse =>
      split
      case h_1 => exact ih attended alive
      case h_2 peer found =>
        have member := List.mem_of_find?_eq_some found
        have first : Attended (node.ask peer entry.item) (log ++ [.fetch peer entry.item]) := by
          have peers (other : Nat) : ((node.ask peer entry.item).peers
              other).inventoryPeerAdvertisedToUs =
                (node.peers other).inventoryPeerAdvertisedToUs := by
            by_cases same : other = peer <;> simp [removeToFetch, same]
          refine attended.remove rfl (fun _ => id) (fun item present => ?_)
            (fun item waiting => ?_) fun other item alive asked => ?_
          · simp only [isItemInAnyPeersInventory, peers] at present
            exact present
          · by_cases same : item = entry.item
            · refine .inl (.inr ⟨peer, alive peer member, ?_⟩)
              simp [asks_ask, same]
            · exact .inl (.inl (isToFetch_removeToFetch.mpr ⟨same, waiting⟩))
          · exact .inl (.inr ⟨other, alive, by rw [asks_ask, asked, Bool.true_or]⟩)
        have still : ∀ other ∈ free.filter (· ≠ peer), (node.ask peer entry.item).live other :=
          fun other found => alive other (List.mem_filter.mp found).1
        have later := ih first still
        rwa [List.append_assoc] at later

omit [DecidableEq H] in
theorem offers_answered [DecidableEq H] (other : Nat) (found : ItemId H) :
    (node.answered peer item).offers other found = node.offers other found := by
  by_cases same : other = peer <;> simp [NodeImpl.offers, answered, same]

/-- The peer does not have what it was asked for, which another peer may still offer. -/
theorem Attended.withdrawn (attended : Attended node log) :
    Attended (node.onItemNotAvailable peer item) (log ++ [.unavailable peer item]) := by
  have gone := quiet_withdrawn (node.answered peer item) peer item
  obtain ⟨quiet, again⟩ : Quiet (node.answered peer item) (node.onItemNotAvailable peer item) ∧
      ((node.onItemNotAvailable peer item).isItemInAnyPeersInventory item →
        (node.onItemNotAvailable peer item).isToFetch item) := by
    unfold onItemNotAvailable
    dsimp only
    split
    case isTrue =>
      exact ⟨gone.trans (quiet_insertToFetch _ item), fun _ =>
        isToFetch_insertToFetch.mpr (.inl rfl)⟩
    case isFalse unoffered => exact ⟨gone, fun offered => absurd offered unoffered⟩
  refine attended.keep quiet.failed quiet.handling fun found present => ?_
  by_cases same : found = item
  · exact .inl (.inl (same ▸ again (same ▸ present)))
  · refine .inr (.inr ⟨?_, ?_⟩)
    · obtain ⟨other, member, offers⟩ := offered_iff.mp (quiet.offered present)
      exact offered_iff.mpr ⟨other, member, (offers_answered other found).symm.trans offers⟩
    · rintro (waiting | ⟨other, alive, asked⟩)
      · exact .inl (.inl (quiet.toFetch found waiting))
      · refine .inl (.inr ⟨other, quiet.live other alive, ?_⟩)
        rw [quiet.asks, asks_answered, asked]
        simp [same]

theorem Attended.connected (attended : Attended node log) (numbered : node.Numbered) :
    Attended (node.step .connected).1 (log ++ []) := by
  refine attended.keep (fun _ => id) (fun _ => id) fun item present => .inr (.inr ⟨?_, ?_⟩)
  · obtain ⟨peer, member, offers⟩ := offered_iff.mp present
    rcases List.mem_append.mp member with old | new
    · rw [NodeImpl.offers, peers_connected_of_ne
        (Nat.ne_of_lt (numbered peer (live_iff.mpr (.inl old))))] at offers
      exact offered_iff.mpr ⟨peer, old, offers⟩
    · rw [List.mem_singleton.mp new, NodeImpl.offers, peers_connected] at offers
      exact absurd offers Bool.false_ne_true
  · rintro (waiting | ⟨peer, alive, asked⟩)
    · exact .inl (.inl waiting)
    · refine .inl (.inr ⟨peer, ?_, ?_⟩)
      · rw [live_iff] at alive ⊢
        exact alive.imp_left (List.mem_append_left _)
      · rwa [asks, peers_connected_of_ne (Nat.ne_of_lt (numbered peer alive))]

/-- What was requested over a connection that is closed is to be fetched again. -/
theorem Attended.closed (attended : Attended node log) :
    Attended (node.onConnectionClosed peer) (log ++ []) := by
  obtain ⟨quiet, again⟩ :=
    quiet_reschedule (node.peers peer).itemsRequestedFromPeer (node.withoutPeer peer)
  refine attended.keep quiet.failed quiet.handling fun item present => .inr (.inr ⟨?_, ?_⟩)
  · obtain ⟨other, member, offers⟩ := offered_iff.mp (quiet.offered present)
    exact offered_iff.mpr ⟨other, (List.mem_filter.mp member).1, offers⟩
  · rintro (waiting | ⟨other, alive, asked⟩)
    · exact .inl (.inl (quiet.toFetch item waiting))
    · by_cases same : other = peer
      · exact .inl (.inl (again item (same ▸ asked) (quiet.offered present)))
      · exact .inl (.inr ⟨other, quiet.live other (live_withoutPeer.mpr ⟨alive, same⟩),
          (quiet.asks other item).trans asked⟩)

theorem Attended.message (attended : Attended node log) (item : ItemId H)
    (recentlyAccepted : Bool) (known : node.Numbered → peer < node.nextConnection) :
    Attended (node.onMessage peer item recentlyAccepted).1
      (log ++ (node.onMessage peer item recentlyAccepted).2) := by
  rw [onMessage]
  split
  case isFalse => exact attended.frame (quiet_disconnect known)
  case isTrue =>
    have ended : Attended (node.answered peer item) (log ++ [.received peer item]) := by
      refine attended.remove rfl (fun _ => id) (fun found present => ?_)
        (fun found waiting => .inl (.inl waiting)) fun other found alive asked => ?_
      · obtain ⟨other, member, offers⟩ := offered_iff.mp present
        exact offered_iff.mpr ⟨other, member, (offers_answered other found).symm.trans offers⟩
      · by_cases same : found = item
        · exact .inr ⟨_, List.mem_singleton_self _, decide_eq_true same.symm⟩
        · refine .inl (.inr ⟨other, alive, ?_⟩)
          simp [asks_answered, asked, same]
    have hand (beingProcessed : List H) : Attended { node.answered peer item with
        beingProcessed := beingProcessed
        handling := (peer, item) :: (node.answered peer item).handling }
          (log ++ [.received peer item]) :=
      ⟨ended.failed, List.forall_mem_cons.mpr ⟨List.mem_append_right _ (List.mem_singleton_self _),
        ended.handled⟩, ended.offered⟩
    dsimp only
    split
    · split
      · have told : Attended ((node.answered peer item).clearActive.addNewInventory item)
            ((log ++ [.received peer item]) ++ [.broadcast item]) :=
          ended.frame (quiet_tell _ item)
        rwa [List.append_assoc] at told
      · exact hand _
    · exact hand _

theorem Attended.handled_all (attended : Attended node log) {item : ItemId H}
    (member : (peer, item) ∈ node.handling) (verdict : Verdict H)
    (known : node.Numbered → peer < node.nextConnection) :
    Attended (node.onHandled peer item verdict).1
      (log ++ (node.onHandled peer item verdict).2) := by
  have erased := quiet_erased node (peer, item)
  unfold onHandled
  dsimp only
  split
  · cases verdict with
    | accepted contained =>
      have forgot : Attended (forgetContained contained { node with
          handling := node.handling.erase (peer, item)
          beingProcessed := node.beingProcessed.filter (· ≠ item.itemHash) })
          (log ++ (contained.map (fun itemHash => .contained ⟨trxMessageType, itemHash⟩) ++
            [.broadcast item])) := by
        rw [forgetContained_eq]
        refine attended.remove rfl erased.handling (fun _ => id) (fun found waiting => ?_)
          fun other found alive asked => .inl (.inr ⟨other, alive, asked⟩)
        by_cases inside : found ∈ contained.map (ItemId.mk trxMessageType)
        · obtain ⟨itemHash, held, rfl⟩ := List.mem_map.mp inside
          exact .inr ⟨_, List.mem_append_left _ (List.mem_map_of_mem held), decide_eq_true rfl⟩
        · obtain ⟨entry, stands, same⟩ := List.any_eq_true.mp waiting
          have same := of_decide_eq_true same
          refine .inl (.inl (List.any_eq_true.mpr ⟨entry, List.mem_filter.mpr ⟨stands, ?_⟩, ?_⟩))
          · rwa [same, decide_eq_true_eq]
          · exact decide_eq_true same
      exact forgot.quiet (quiet_tell _ item)
    | unlinkable => exact attended.frame (quiet_unlinkable node peer item)
    | rejected others => exact attended.frame (quiet_rejected known item others)
  · have failure : Attended { node with
        handling := node.handling.erase (peer, item)
        recentlyFailedItems := node.recentlyFailedItems.add item (node.now / 1000000) }
          (log ++ []) := by
      rw [List.append_nil]
      refine ⟨fun found failed => ?_, fun entry stands =>
        attended.handled entry (erased.handling entry stands),
        attended.offered⟩
      rcases (TimestampedItems.has_add ..).mp failed with rfl | old
      · exact settled_received (attended.handled _ member)
      · exact attended.failed found old
    cases verdict with
    | accepted contained => exact attended.frame (erased.trans (quiet_addNewInventory _ item))
    | _ => exact failure

theorem Attended.step (attended : Attended node log) (balanced : Balanced node log)
    (event : Event H) : Attended (node.step event).1 (log ++ (node.step event).2) := by
  by_cases quiet : event.isQuiet
  · exact attended.frame (quiet_step node quiet).1
  have same : Attended node (log ++ []) := by rwa [List.append_nil]
  cases event with
  | connected => exact attended.connected balanced.numbered
  | inventory peer itemType hashes =>
    rw [NodeImpl.step]
    split
    case isTrue => exact (attended.quiet (quiet_clear node peer)).noted (noted_noteInventory ..)
    case isFalse => exact same
  | notAvailable peer item =>
    rw [NodeImpl.step]
    split
    case isTrue => exact attended.withdrawn
    case isFalse => exact same
  | message peer item recentlyAccepted =>
    rw [NodeImpl.step]
    split
    case isTrue alive =>
      exact attended.message item recentlyAccepted fun numbered => numbered peer alive
    case isFalse => exact same
  | handled peer item verdict =>
    rw [NodeImpl.step]
    split
    case isTrue member =>
      exact attended.handled_all member verdict fun _ => balanced.handlers _ member
    case isFalse => exact same
  | fetchItems order =>
    exact attended.fetchFrom _ _ fun peer member => live_iff.mpr (.inl (mem_free member).1)
  | closed peer =>
    rw [NodeImpl.step]
    split
    case isTrue => exact attended.closed
    case isFalse => exact same
  | _ => exact absurd rfl quiet

theorem attended_started (now recentBlockIntervalInSeconds : Nat) :
    Attended (started now recentBlockIntervalInSeconds : NodeImpl H) [] where
  failed _ none := absurd none Bool.false_ne_true
  handled _ none := absurd none List.not_mem_nil
  offered _ none := absurd none Bool.false_ne_true

theorem attended_run (now recentBlockIntervalInSeconds : Nat) (events : List (Event H)) :
    Attended (run events (started now recentBlockIntervalInSeconds)).1
      (run events (started now recentBlockIntervalInSeconds)).2 :=
  (run_invariant (fun node _ log => Balanced node log ∧ Attended node log)
    (fun _ _ _ event held => ⟨held.1.step event, held.2.step held.1 event⟩) events _ [] []
    ⟨balanced_started now recentBlockIntervalInSeconds,
      attended_started now recentBlockIntervalInSeconds⟩).2

/-- Whatever the peers do, an item that one of them offers is not forgotten: it waits to be
fetched, or a peer whose connection is not closed has been asked for it, or it has arrived, come
with a block, been given by the client, or waited too long. -/
theorem offers_attended (now recentBlockIntervalInSeconds : Nat) (events : List (Event H))
    (peer : Nat) (item : ItemId H) :
    let after := run events (started now recentBlockIntervalInSeconds)
    peer ∈ after.1.activeConnections → after.1.offers peer item →
      after.1.isToFetch item ∨ (∃ other, after.1.live other ∧ after.1.asks other item) ∨
        ∃ action ∈ after.2, action.settles item := by
  intro after member offers
  have held := (attended_run now recentBlockIntervalInSeconds events).offered item
    (offered_iff.mpr ⟨peer, member, offers⟩)
  exact or_assoc.mp held

/-- Two peers offer a block, and the one that is asked for it closes its connection. -/
def abandoned : List (Event Nat) :=
  [.connected, .connected, .inventory 0 blockMessageType [7], .inventory 1 blockMessageType [7],
    .fetchItems [0, 1], .closed 0]

theorem abandoned_block_attended :
    (run abandoned (started 0 3)).1.isToFetch ⟨blockMessageType, 7⟩ ∨
      (∃ other, (run abandoned (started 0 3)).1.live other ∧
        (run abandoned (started 0 3)).1.asks other ⟨blockMessageType, 7⟩) ∨
      ∃ action ∈ (run abandoned (started 0 3)).2, action.settles ⟨blockMessageType, 7⟩ :=
  offers_attended 0 3 abandoned 1 ⟨blockMessageType, 7⟩ (by decide) (by decide)

end NodeImpl

end DeipChain.Net
