import DeipChain.Net.GossipOffers

/-!
# Where the items come from

A node tells its peers of an item only when its client gave it the item, or when a peer offered
it, was asked for it and sent it, and the delegate accepted it.
-/
namespace DeipChain.Net

variable {H : Type} [DecidableEq H]

/-- The event in which the peer offers the item. -/
def Event.tells (peer : Nat) (item : ItemId H) (event : Event H) : Prop :=
  ∃ hashes, event = .inventory peer item.itemType hashes ∧ item.itemHash ∈ hashes

/-- The event in which the delegate is found to accept the item. -/
def Event.accepts (peer : Nat) (item : ItemId H) (event : Event H) : Prop :=
  event = .message peer item true ∨ ∃ contained, event = .handled peer item (.accepted contained)

namespace NodeImpl

variable {node next : NodeImpl H} {item : ItemId H} {peer : Nat} {log actions : List (Action H)}

/-- What one event has to do with the sources of the items. -/
structure Traced (node : NodeImpl H) (event : Event H) (result : NodeImpl H × List (Action H)) :
    Prop where
  offers : ∀ peer item, result.1.offers peer item → node.offers peer item ∨ event.tells peer item
  new : ∀ item ∈ result.1.newInventory, item ∈ node.newInventory ∨ .broadcast item ∈ result.2
  fetched : ∀ peer item, .fetch peer item ∈ result.2 → node.offers peer item
  advertised : ∀ peer item, .advertise peer item ∈ result.2 → item ∈ node.newInventory
  accepted : ∀ item, .broadcast item ∈ result.2 → event = .broadcast item ∨
    ∃ peer, event.accepts peer item ∧
      ((peer, item) ∈ node.handling ∨ .received peer item ∈ result.2)

theorem newInventory_reschedule (items : TimestampedItems H) (node : NodeImpl H) :
    (reschedule items node).newInventory = node.newInventory := by
  induction items generalizing node with
  | nil => rfl
  | cons entry rest ih =>
    rw [reschedule, ih]
    split <;> rfl

omit [DecidableEq H] in
theorem disconnect_all_unchanged (peers : List Nat) (node : NodeImpl H) :
    (peers.foldl disconnect node).peers = node.peers ∧
      (peers.foldl disconnect node).newInventory = node.newInventory := by
  induction peers generalizing node with
  | nil => exact ⟨rfl, rfl⟩
  | cons peer rest ih => exact ih _

theorem mem_addNewInventory {other : ItemId H}
    (member : item ∈ (node.addNewInventory other).newInventory) :
    item ∈ node.newInventory ∨ item = other := by
  unfold addNewInventory at member
  split at member
  · exact .inl member
  · simpa using member

/-- An event that sends nothing, accepts nothing and adds nothing to the inventory. -/
theorem Traced.silent {event : Event H} (offers : ∀ peer item, next.offers peer item →
      node.offers peer item ∨ event.tells peer item)
    (new : next.newInventory = node.newInventory)
    (ended : ∀ action ∈ actions, ∃ peer item, action = .received peer item ∨
      action = .unavailable peer item) : Traced node event (next, actions) := by
  refine ⟨offers, fun item member => .inl (new ▸ member), fun peer item member => ?_,
    fun peer item member => ?_, fun item member => ?_⟩
  all_goals obtain ⟨_, _, this | this⟩ := ended _ member <;> cases this

/-- An action of the fetch loop, and what the loop does after it. -/
theorem Traced.cons {event : Event H} {later : NodeImpl H × List (Action H)} {action : Action H}
    (rest : Traced next event later)
    (offers : ∀ peer item, next.offers peer item = node.offers peer item)
    (new : next.newInventory = node.newInventory) (handling : next.handling = node.handling)
    (first : action = .expired item ∨
      ∃ peer, action = .fetch peer item ∧ node.offers peer item) :
    Traced node event (later.1, action :: later.2) := by
  refine ⟨fun other found told => offers other found ▸ rest.offers other found told,
    fun found member => ?_, fun other found member => ?_, fun other found member => ?_,
    fun found member => ?_⟩
  · exact (new ▸ rest.new found member).imp_right (List.mem_cons_of_mem _)
  · rcases List.mem_cons.mp member with same | member
    · rcases first with rfl | ⟨_, rfl, offered⟩ <;> cases same
      exact offered
    · exact offers other found ▸ rest.fetched other found member
  · rcases List.mem_cons.mp member with same | member
    · rcases first with rfl | ⟨_, rfl, -⟩ <;> cases same
    · exact new ▸ rest.advertised other found member
  · rcases List.mem_cons.mp member with same | member
    · rcases first with rfl | ⟨_, rfl, -⟩ <;> cases same
    · exact (rest.accepted found member).imp_right fun held => by
        obtain ⟨other, accepts, held⟩ := held
        exact ⟨other, accepts, (handling ▸ held).imp_right (List.mem_cons_of_mem _)⟩

theorem Traced.fetchFrom {event : Event H} (oldest : Nat) (entries : List (PrioritizedItem H))
    (free : List Nat) (node : NodeImpl H) :
    Traced node event (fetchFrom oldest entries free node) := by
  induction entries generalizing node free with
  | nil => exact .silent (fun _ _ => .inl) rfl fun _ none => absurd none List.not_mem_nil
  | cons entry rest ih =>
    rw [NodeImpl.fetchFrom]
    split
    · exact (ih free _).cons (fun _ _ => rfl) rfl rfl (.inl rfl)
    split
    · exact ih free node
    case h_2 peer found =>
      refine (ih _ (node.ask peer entry.item)).cons (fun other item => ?_) rfl rfl
        (.inr ⟨peer, rfl, ?_⟩)
      · by_cases same : other = peer <;> simp [NodeImpl.offers, removeToFetch, same]
      · exact List.find?_some (p := fun peer => node.offers peer entry.item) found

theorem traced_quiet {event : Event H} (quiet : event.isQuiet) :
    Traced node event (node.step event) := by
  have offers (peer : Nat) (item : ItemId H) (told : (node.step event).1.offers peer item) :
      node.offers peer item ∨ event.tells peer item :=
    .inl ((quiet_step node quiet).1.offers peer item told)
  cases event with
  | broadcast item =>
    refine ⟨offers, fun found member => ?_, fun _ _ member => ?_, fun _ _ member => ?_,
      fun found member => ?_⟩
    · refine (mem_addNewInventory member).imp_right fun same => ?_
      rw [same]
      exact List.mem_singleton_self _
    · cases List.mem_singleton.mp member
    · cases List.mem_singleton.mp member
    · cases List.mem_singleton.mp member
      exact .inl rfl
  | advertiseInventory =>
    have only (action : Action H) (member : action ∈ (node.step .advertiseInventory).2) :
        ∃ peer, ∃ item ∈ node.newInventory, action = .advertise peer item := by
      obtain ⟨peer, _, member⟩ := List.mem_flatMap.mp member
      obtain ⟨item, held, rfl⟩ := List.mem_map.mp member
      refine ⟨peer, item, ?_, rfl⟩
      unfold toAdvertise at held
      split at held
      · exact absurd held List.not_mem_nil
      · exact (List.mem_filter.mp held).1
    refine ⟨offers, fun _ none => absurd none List.not_mem_nil, fun _ _ member => ?_,
      fun peer item member => ?_, fun _ member => ?_⟩
    all_goals obtain ⟨_, _, held, same⟩ := only _ member; cases same
    exact held
  | disconnect peer =>
    rw [step] at offers ⊢
    split at offers
    · rw [if_pos ‹_›]
      exact .silent offers rfl fun _ none => absurd none List.not_mem_nil
    · rw [if_neg ‹_›]
      exact .silent offers rfl fun _ none => absurd none List.not_mem_nil
  | tick | syncState | forgetFailed =>
    exact .silent offers rfl fun _ none => absurd none List.not_mem_nil
  | _ => exact absurd quiet Bool.false_ne_true

/-- An accepted item is to be advertised, after what else the step does. -/
theorem Traced.told {event : Event H} {mid : NodeImpl H}
    (offers : ∀ peer item, next.offers peer item → node.offers peer item)
    (new : next.newInventory = (mid.addNewInventory item).newInventory)
    (same : mid.newInventory = node.newInventory)
    (others : ∀ action ∈ actions, (∃ peer item, action = .received peer item) ∨
      ∃ item, action = .contained item)
    (source : event.accepts peer item ∧
      ((peer, item) ∈ node.handling ∨ .received peer item ∈ actions)) :
    Traced node event (next, actions ++ [.broadcast item]) := by
  have only (action : Action H) (member : action ∈ actions ++ [.broadcast item]) :
      action = .broadcast item ∨ (∃ peer item, action = .received peer item) ∨
        ∃ item, action = .contained item :=
    (List.mem_append.mp member).elim (fun member => .inr (others action member)) fun member =>
      .inl (List.mem_singleton.mp member)
  refine ⟨fun peer item told => .inl (offers peer item told), fun found member => ?_,
    fun _ _ member => ?_, fun _ _ member => ?_, fun found member => ?_⟩
  · rw [new] at member
    refine (mem_addNewInventory member).imp (fun old => same ▸ old) fun same => ?_
    rw [same]
    exact List.mem_append_right _ (List.mem_singleton_self _)
  · rcases only _ member with this | ⟨_, _, this⟩ | ⟨_, this⟩ <;> cases this
  · rcases only _ member with this | ⟨_, _, this⟩ | ⟨_, this⟩ <;> cases this
  · rcases only _ member with this | ⟨_, _, this⟩ | ⟨_, this⟩ <;> cases this
    exact .inr ⟨peer, source.1, source.2.imp_right (List.mem_append_left _)⟩

theorem traced_message (peer : Nat) (item : ItemId H) (recentlyAccepted : Bool) :
    Traced node (.message peer item recentlyAccepted)
      (node.onMessage peer item recentlyAccepted) := by
  have ended : ∀ action ∈ [Action.received peer item], ∃ peer item,
      action = .received peer item ∨ action = .unavailable peer item :=
    fun action member => ⟨peer, item, .inl (List.mem_singleton.mp member)⟩
  have offers (other : Nat) (found : ItemId H) (told : (node.answered peer item).offers other found) :
      node.offers other found := (offers_answered other found).symm.trans told
  unfold onMessage
  dsimp only
  split
  · split
    · split
      case isTrue accepted =>
        have told : Traced node (.message peer item recentlyAccepted)
            ((node.answered peer item).clearActive.addNewInventory item,
              [.received peer item] ++ [.broadcast item]) :=
          .told (fun other found told =>
              offers other found ((quiet_tell _ item).offers other found told)) rfl rfl
            (fun action member => .inl ⟨_, _, List.mem_singleton.mp member⟩)
            ⟨.inl (by rw [accepted]), .inr (List.mem_singleton_self _)⟩
        exact told
      · exact .silent (fun other found told => .inl (offers other found told)) rfl ended
    · exact .silent (fun other found told => .inl (offers other found told)) rfl ended
  · exact .silent (fun _ _ => .inl) rfl fun _ none => absurd none List.not_mem_nil

theorem traced_handled {item : ItemId H} (member : (peer, item) ∈ node.handling)
    (verdict : Verdict H) :
    Traced node (.handled peer item verdict) (node.onHandled peer item verdict) := by
  have none : ∀ action ∈ ([] : List (Action H)), ∃ peer item, action = .received peer item ∨
      action = .unavailable peer item := fun _ none => absurd none List.not_mem_nil
  unfold onHandled
  dsimp only
  split
  · cases verdict with
    | accepted contained =>
      dsimp only
      rw [forgetContained_eq]
      refine .told (fun other found told => (quiet_tell _ item).offers other found told) rfl rfl
        (fun action held => .inr ?_) ⟨.inr ⟨contained, rfl⟩, .inl member⟩
      obtain ⟨itemHash, _, rfl⟩ := List.mem_map.mp held
      exact ⟨_, rfl⟩
    | unlinkable =>
      exact .silent (fun other found told =>
        .inl ((quiet_unlinkable node peer item).offers other found told)) rfl none
    | rejected others =>
      obtain ⟨kept, new⟩ := disconnect_all_unchanged (peer :: others.filter fun other =>
        live { node with handling := node.handling.erase (peer, item) } other)
        { node with handling := node.handling.erase (peer, item) }
      refine .silent (fun other found told => .inl ?_) new none
      rwa [NodeImpl.offers, kept] at told
  · cases verdict with
    | accepted contained =>
      have told : Traced node (.handled peer item (.accepted contained))
          (addNewInventory { node with handling := node.handling.erase (peer, item) } item,
            [] ++ [.broadcast item]) :=
        .told (fun _ _ => id) rfl rfl (fun _ held => absurd held List.not_mem_nil)
          ⟨.inr ⟨contained, rfl⟩, .inl member⟩
      exact told
    | _ => exact .silent (fun _ _ => .inl) rfl none

theorem traced_step (node : NodeImpl H) (event : Event H) :
    Traced node event (node.step event) := by
  by_cases quiet : event.isQuiet
  · exact traced_quiet quiet
  have none : ∀ action ∈ ([] : List (Action H)), ∃ peer item, action = .received peer item ∨
      action = .unavailable peer item := fun _ none => absurd none List.not_mem_nil
  have same : Traced node event (node, []) := .silent (fun _ _ => .inl) rfl none
  cases event with
  | connected =>
    refine .silent (fun peer item told => .inl ?_) rfl none
    change (node.step .connected).1.offers peer item at told
    by_cases new : peer = node.nextConnection
    · rw [NodeImpl.offers, new, peers_connected] at told
      exact absurd told Bool.false_ne_true
    · rwa [NodeImpl.offers, peers_connected_of_ne new] at told
  | inventory peer itemType hashes =>
    rw [step]
    split
    case isTrue =>
      have noted := noted_noteInventory peer itemType hashes
        (node.setPeer peer (PeerConnection.clearOldInventory node.now))
      refine .silent (fun other item told => ?_) noted.new none
      rcases noted.offers other item told with old | ⟨⟨rfl, rfl, member⟩, -⟩
      · exact .inl ((quiet_clear node peer).offers other item old)
      · exact .inr ⟨hashes, rfl, member⟩
    case isFalse => exact same
  | notAvailable peer item =>
    rw [step]
    split
    case isTrue =>
      have gone := quiet_withdrawn (node.answered peer item) peer item
      have told (other : Nat) (found : ItemId H)
          (offers : (node.onItemNotAvailable peer item).offers other found) :
          node.offers other found := by
        unfold onItemNotAvailable at offers
        dsimp only at offers
        have before : (node.answered peer item).offers other found := by
          split at offers <;> exact gone.offers other found offers
        rwa [offers_answered] at before
      refine .silent (fun other found offers => .inl (told other found offers)) ?_
        fun action member => ⟨peer, item, .inr (List.mem_singleton.mp member)⟩
      unfold onItemNotAvailable
      dsimp only
      split <;> rfl
    case isFalse => exact same
  | message peer item recentlyAccepted =>
    rw [step]
    split
    · exact traced_message peer item recentlyAccepted
    · exact same
  | handled peer item verdict =>
    rw [step]
    split
    case isTrue member => exact traced_handled member verdict
    case isFalse => exact same
  | fetchItems order => exact .fetchFrom _ _ _ node
  | closed peer =>
    rw [step]
    split
    · exact .silent (fun other item told =>
        .inl ((quiet_reschedule _ (node.withoutPeer peer)).1.offers other item told))
        (newInventory_reschedule _ (node.withoutPeer peer)) none
    · exact same
  | _ => exact absurd rfl quiet

/-- Where what a node knows of and tells of comes from. -/
structure Sourced (node : NodeImpl H) (past : List (Event H)) (log : List (Action H)) : Prop where
  offered : ∀ peer item, node.offers peer item → ∃ event ∈ past, event.tells peer item
  fetched : ∀ peer item, .fetch peer item ∈ log → ∃ event ∈ past, event.tells peer item
  new : ∀ item ∈ node.newInventory, .broadcast item ∈ log
  advertised : ∀ peer item, .advertise peer item ∈ log → .broadcast item ∈ log
  accepted : ∀ item, .broadcast item ∈ log → .broadcast item ∈ past ∨
    ∃ peer, (∃ event ∈ past, event.accepts peer item) ∧ .received peer item ∈ log

theorem Sourced.step {past : List (Event H)} (sourced : Sourced node past log)
    (attended : Attended node log) (event : Event H) :
    Sourced (node.step event).1 (past ++ [event]) (log ++ (node.step event).2) := by
  have traced := traced_step node event
  have old {property : Event H → Prop} (held : ∃ event ∈ past, property event) :
      ∃ found ∈ past ++ [event], property found := by
    obtain ⟨found, member, held⟩ := held
    exact ⟨found, List.mem_append_left _ member, held⟩
  have last : event ∈ past ++ [event] := List.mem_append_right _ (List.mem_singleton_self _)
  have offered (peer : Nat) (item : ItemId H) (offers : node.offers peer item) :=
    old (sourced.offered peer item offers)
  refine ⟨fun peer item offers => ?_, fun peer item member => ?_, fun item member => ?_,
    fun peer item member => ?_, fun item member => ?_⟩
  · rcases traced.offers peer item offers with before | told
    · exact offered peer item before
    · exact ⟨event, last, told⟩
  · rcases List.mem_append.mp member with before | now
    · exact old (sourced.fetched peer item before)
    · exact offered peer item (traced.fetched peer item now)
  · rcases traced.new item member with before | now
    · exact List.mem_append_left _ (sourced.new item before)
    · exact List.mem_append_right _ now
  · refine List.mem_append_left _ ?_
    rcases List.mem_append.mp member with before | now
    · exact sourced.advertised peer item before
    · exact sourced.new item (traced.advertised peer item now)
  · rcases List.mem_append.mp member with before | now
    · rcases sourced.accepted item before with own | ⟨peer, accepts, received⟩
      · exact .inl (List.mem_append_left _ own)
      · exact .inr ⟨peer, old accepts, List.mem_append_left _ received⟩
    · rcases traced.accepted item now with same | ⟨peer, accepts, handled | received⟩
      · exact .inl (same ▸ last)
      · exact .inr ⟨peer, ⟨event, last, accepts⟩,
          List.mem_append_left _ (attended.handled _ handled)⟩
      · exact .inr ⟨peer, ⟨event, last, accepts⟩, List.mem_append_right _ received⟩

theorem sourced_run (now recentBlockIntervalInSeconds : Nat) (events : List (Event H)) :
    Sourced (run events (started now recentBlockIntervalInSeconds)).1 events
      (run events (started now recentBlockIntervalInSeconds)).2 := by
  have initial : Sourced (started now recentBlockIntervalInSeconds : NodeImpl H) [] [] :=
    ⟨fun _ _ none => absurd none Bool.false_ne_true, fun _ _ none => absurd none List.not_mem_nil,
      fun _ none => absurd none List.not_mem_nil, fun _ _ none => absurd none List.not_mem_nil,
      fun _ none => absurd none List.not_mem_nil⟩
  exact (run_invariant (fun (node : NodeImpl H) past log =>
      Balanced node log ∧ Attended node log ∧ Sourced node past log)
    (fun _ _ _ event held => ⟨held.1.step event, held.2.1.step held.1 event,
      held.2.2.step held.2.1 event⟩) events _ [] []
      ⟨balanced_started now recentBlockIntervalInSeconds,
        attended_started now recentBlockIntervalInSeconds, initial⟩).2.2

/-- Whatever its peers do, a node tells a peer of an item only when its own client gave it the
item, or when a peer had offered it, was asked for it and sent it, and it was accepted. -/
theorem advertised_accepted (now recentBlockIntervalInSeconds : Nat) (events : List (Event H))
    (peer : Nat) (item : ItemId H) :
    let after := run events (started now recentBlockIntervalInSeconds)
    .advertise peer item ∈ after.2 → .broadcast item ∈ events ∨
      ∃ source, (∃ event ∈ events, event.tells source item) ∧ .fetch source item ∈ after.2 ∧
        .received source item ∈ after.2 ∧ ∃ event ∈ events, event.accepts source item := by
  intro after advertised
  have sourced := sourced_run now recentBlockIntervalInSeconds events
  refine (sourced.accepted item (sourced.advertised peer item advertised)).imp_right fun held => ?_
  obtain ⟨source, accepts, received⟩ := held
  have fetched : .fetch source item ∈ after.2 := by
    have some : 0 < after.2.count (.received source item) := List.count_pos_iff.mpr received
    have settled : after.2.count (.fetch source item) = after.2.count (.received source item) +
        after.2.count (.unavailable source item) + (after.1.asks source item).toNat :=
      (balanced_run now recentBlockIntervalInSeconds events).settled source item
    exact List.count_pos_iff.mp (by omega)
  exact ⟨source, sourced.fetched source item fetched, fetched, received, accepts⟩

/-- A block goes from one peer to another. -/
def relayed : List (Event Nat) :=
  [.connected, .connected, .syncState 1 false false, .inventory 0 blockMessageType [7],
    .fetchItems [1, 0], .message 0 ⟨blockMessageType, 7⟩ false,
    .handled 0 ⟨blockMessageType, 7⟩ (.accepted []), .advertiseInventory]

theorem relayed_block_accepted : .broadcast ⟨blockMessageType, 7⟩ ∈ relayed ∨
    ∃ source, (∃ event ∈ relayed, event.tells source ⟨blockMessageType, 7⟩) ∧
      .fetch source ⟨blockMessageType, 7⟩ ∈ (run relayed (started 0 3)).2 ∧
      .received source ⟨blockMessageType, 7⟩ ∈ (run relayed (started 0 3)).2 ∧
      ∃ event ∈ relayed, event.accepts source ⟨blockMessageType, 7⟩ :=
  advertised_accepted 0 3 relayed 1 ⟨blockMessageType, 7⟩ (by decide)

end NodeImpl

end DeipChain.Net
