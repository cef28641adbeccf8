import DeipChain.Chainbase.Squash
import DeipChain.Plugins.AccountByKey

/-!
# Runs of the plugin for keys

What the plugin does is said by the places that its objects take: an object is at a key, an
account and a time. The handler after an operation puts the keys that are new to the place of the
largest time and moves those that are gone from there to the place of the block's time. Where
that place is taken, the move loses the object and the other moves are not made.

So the objects are as they should be along every run in which no key is taken from an account a
second time in one block.
-/
namespace DeipChain.AccountByKey

open Std Chainbase OrderedMap Protocol Result Table

variable {Key : Type} [LinearOrder Key]

/-! ## The places of the objects -/

/-- An object is at a place. -/
def Placed (objects : Objects (KeyLookup Key)) (place : Key × String × Nat) : Prop :=
  ∃ (id : Nat) (lookup : KeyLookup Key), objects[id]? = some lookup ∧ lookup.place = place

section Places

variable {lookups : KeyLookupIndex Key} {place : Key × String × Nat} {id : Nat}

theorem placed_of_find (found : findLookup lookups place = some id) :
    ∃ lookup : KeyLookup Key, lookups.indices[id]? = some lookup ∧ lookup.place = place := by
  obtain ⟨item, first, rfl⟩ := Option.map_eq_some_iff.mp found
  have member := List.mem_of_find?_eq_some first
  exact ⟨item.2, ExtTreeMap.mem_toList_iff_getElem?_eq_some.mp member,
    by simpa using List.find?_some first⟩

theorem find_eq_none_iff : findLookup lookups place = none ↔ ¬ Placed lookups.indices place := by
  rw [findLookup, Option.map_eq_none_iff, List.find?_eq_none]
  constructor
  · rintro free ⟨id, lookup, stored, at_⟩
    exact free (id, lookup) (ExtTreeMap.mem_toList_iff_getElem?_eq_some.mpr stored) (beq_iff_eq.mpr at_)
  · intro free item member at_
    exact free ⟨item.1, item.2, ExtTreeMap.mem_toList_iff_getElem?_eq_some.mp member,
      beq_iff_eq.mp at_⟩

/-- A place that is free can be taken. -/
theorem collides_eq_false {objects : Objects (KeyLookup Key)} {value : KeyLookup Key}
    (free : ¬ Placed objects value.place) : collides uniqueKeys objects id value = false := by
  rw [← Bool.not_eq_true, collides_iff]
  rintro ⟨other, held, stored, _, shared⟩
  obtain ⟨key, member, same⟩ := shareKey_iff.mp shared
  obtain rfl := List.mem_singleton.mp member
  exact free ⟨other, held, stored, same⟩

/-- No two objects are at one place. -/
theorem id_unique (kept : WellKept uniqueKeys lookups) {other : Nat} {first second : KeyLookup Key}
    (one : lookups.indices[id]? = some first) (two : lookups.indices[other]? = some second)
    (same : first.place = second.place) : id = other :=
  kept.unique id other first second one two
    (shareKey_iff.mpr ⟨KeyLookup.place, List.mem_singleton_self _, same⟩)

end Places

/-- What a change of the index keeps: a session stays one, and no object goes. -/
structure Carries (before after : KeyLookupIndex Key) : Prop where
  kept : WellKept uniqueKeys before → WellKept uniqueKeys after
  session : ∀ base, Session uniqueKeys base before → Session uniqueKeys base after
  bottom : before.stack = [] → after.stack = []
  there : ∀ id, id ∈ before.indices → id ∈ after.indices

namespace Carries

variable {first second third : KeyLookupIndex Key}

theorem refl (index : KeyLookupIndex Key) : Carries index index :=
  ⟨id, fun _ => id, id, fun _ => id⟩

theorem trans (one : Carries first second) (two : Carries second third) : Carries first third :=
  ⟨two.kept ∘ one.kept, fun base => two.session base ∘ one.session base, two.bottom ∘ one.bottom,
    fun id => two.there id ∘ one.there id⟩

end Carries

omit [LinearOrder Key] in
theorem onHead_bottom {index : KeyLookupIndex Key} (bottom : index.stack = [])
    (change : UndoState (KeyLookup Key) → UndoState (KeyLookup Key)) :
    (index.onHead change).stack = [] := by
  rw [GenericIndex.onHead, bottom]
  exact bottom

section Calls

variable {lookups : KeyLookupIndex Key} {value lookup : KeyLookup Key} {id : Nat}

/-- An object at a free place is created. -/
theorem emplace_spec (kept : WellKept uniqueKeys lookups) (free : ¬ Placed lookups.indices value.place) :
    ∃ after, lookups.emplace uniqueKeys (fun _ => value) = .ok () after ∧ Carries lookups after ∧
      ∀ place, Placed after.indices place ↔ Placed lookups.indices place ∨ place = value.place := by
  have fresh : lookups.nextId ∉ lookups.indices := fun member =>
    Nat.lt_irrefl _ (kept.below _ member)
  have inserted : emplaceElement uniqueKeys lookups.indices lookups.nextId value =
      some (lookups.indices.insert lookups.nextId value) := by
    rw [emplaceElement, collides_eq_false free, Bool.or_false, if_neg]
    rwa [ExtTreeMap.contains_iff_mem]
  have done : lookups.emplace uniqueKeys (fun _ => value) = .ok () (GenericIndex.onCreate
      { lookups with
        indices := lookups.indices.insert lookups.nextId value
        nextId := lookups.nextId + 1 } lookups.nextId) := by
    simp only [GenericIndex.emplace, inserted]
  refine ⟨_, done, ⟨fun kept => kept.emplace done, fun base session => session.emplace done, ?_, ?_⟩, ?_⟩
  · intro bottom
    refine onHead_bottom ?_ _
    exact bottom
  · intro id member
    rw [GenericIndex.onCreate, indices_onHead]
    exact mem_insert_iff.mpr (.inr member)
  · intro place
    rw [GenericIndex.onCreate, indices_onHead]
    constructor
    · rintro ⟨id, lookup, stored, rfl⟩
      rw [lookup_insert] at stored
      split at stored
      · exact .inr (congrArg KeyLookup.place (Option.some.inj stored).symm)
      · exact .inl ⟨id, lookup, stored, rfl⟩
    · rintro (⟨id, lookup, stored, rfl⟩ | rfl)
      · refine ⟨id, lookup, ?_, rfl⟩
        rw [lookup_insert, if_neg]
        · exact stored
        · rintro rfl
          exact fresh (mem_iff_lookup.mpr ⟨lookup, stored⟩)
      · exact ⟨lookups.nextId, value, by rw [lookup_insert, if_pos rfl], rfl⟩

/-- An object is moved to a free place. -/
theorem modify_spec (kept : WellKept uniqueKeys lookups) (stored : lookups.indices[id]? = some lookup)
    {change : KeyLookup Key → KeyLookup Key} (free : ¬ Placed lookups.indices (change lookup).place) :
    ∃ after, lookups.modify uniqueKeys id change = .ok () after ∧ Carries lookups after ∧
      ∀ place, Placed after.indices place ↔
        Placed lookups.indices place ∧ place ≠ lookup.place ∨ place = (change lookup).place := by
  have same : (lookups.onModify id lookup).indices = lookups.indices := indices_onHead _ _
  have done : lookups.modify uniqueKeys id change = .ok ()
      { lookups.onModify id lookup with indices := lookups.indices.insert id (change lookup) } := by
    simp only [GenericIndex.modify, stored, same, collides_eq_false free, Bool.false_eq_true, if_false]
  refine ⟨_, done, ⟨fun kept => kept.modify done, fun base session => session.modify done, ?_, ?_⟩, ?_⟩
  · exact fun bottom => onHead_bottom bottom _
  · exact fun other member => mem_insert_iff.mpr (.inr member)
  · intro place
    constructor
    · rintro ⟨other, held, found, rfl⟩
      rw [lookup_insert] at found
      split at found
      · exact .inr (congrArg KeyLookup.place (Option.some.inj found).symm)
      · rename_i apart
        refine .inl ⟨⟨other, held, found, rfl⟩, ?_⟩
        exact fun equal => apart (id_unique kept stored found equal.symm)
    · rintro (⟨⟨other, held, found, rfl⟩, apart⟩ | rfl)
      · refine ⟨other, held, ?_, rfl⟩
        rw [lookup_insert, if_neg]
        · exact found
        · rintro rfl
          exact apart (congrArg KeyLookup.place (Option.some.inj (found.symm.trans stored)))
      · exact ⟨id, change lookup, by rw [lookup_insert, if_pos rfl], rfl⟩

end Calls

/-! ## The loops of the handler -/

section Loops

variable {plugin : Plugin Key} {account : String} {key : Key} {keys : List Key} {now : Nat}

omit [LinearOrder Key] in
theorem call_ok (plugin : Plugin Key) (lookups : KeyLookupIndex Key) :
    plugin.call (.ok () lookups) = .returned { plugin with lookups } := rfl

/-- A round for a key of the authorities. -/
theorem addLookup_spec (kept : WellKept uniqueKeys plugin.lookups) :
    ∃ after, plugin.addLookup account key = .returned after ∧ Carries plugin.lookups after.lookups ∧
      after.cachedKeys = plugin.cachedKeys.erase key ∧
      ∀ place, Placed after.lookups.indices place ↔ Placed plugin.lookups.indices place ∨
        key ∉ plugin.cachedKeys ∧ place = (key, account, maximumTime) := by
  rw [Plugin.addLookup]
  by_cases cached : key ∈ plugin.cachedKeys
  · rw [if_pos cached]
    exact ⟨_, rfl, .refl _, rfl, fun place => by simp [cached]⟩
  · rw [if_neg cached]
    cases found : findLookup plugin.lookups (key, account, maximumTime) with
    | some id =>
      obtain ⟨lookup, stored, at_⟩ := placed_of_find found
      refine ⟨plugin, rfl, .refl _, (List.erase_of_not_mem cached).symm, fun place => ?_⟩
      constructor
      · exact .inl
      · rintro (placed | ⟨_, rfl⟩)
        · exact placed
        · exact ⟨id, lookup, stored, at_⟩
    | none =>
      obtain ⟨after, done, carries, places⟩ := @emplace_spec _ _ plugin.lookups
        ⟨key, account, maximumTime⟩ kept (find_eq_none_iff.mp found)
      refine ⟨{ plugin with lookups := after }, ?_, carries, (List.erase_of_not_mem cached).symm, ?_⟩
      · simp only [done, call_ok]
      · intro place
        rw [places, and_iff_right cached]
        rfl

/-- The keys of the authorities leave the remembered ones, or get objects. -/
theorem addLookups_spec (kept : WellKept uniqueKeys plugin.lookups) (distinct : keys.Nodup) :
    ∃ after, Outcome.each (fun _ plugin key => plugin.addLookup account key) plugin keys =
        .returned after ∧ Carries plugin.lookups after.lookups ∧
      after.cachedKeys = plugin.cachedKeys.diff keys ∧
      ∀ place, Placed after.lookups.indices place ↔ Placed plugin.lookups.indices place ∨
        ∃ key ∈ keys, key ∉ plugin.cachedKeys ∧ place = (key, account, maximumTime) := by
  induction keys generalizing plugin with
  | nil => exact ⟨plugin, rfl, .refl _, (List.diff_nil _).symm, fun place => by simp⟩
  | cons key rest hypothesis =>
    rw [List.nodup_cons] at distinct
    obtain ⟨next, begun, carries, cached, places⟩ := @addLookup_spec _ _ plugin account key kept
    obtain ⟨after, ran, further, left, others⟩ := hypothesis (carries.kept kept) distinct.2
    refine ⟨after, by rw [Outcome.each_cons, begun]; exact ran, carries.trans further, ?_, ?_⟩
    · rw [left, cached, List.diff_cons]
    · intro place
      have apart : ∀ other ∈ rest, (other ∉ plugin.cachedKeys.erase key ↔ other ∉ plugin.cachedKeys) := by
        intro other member
        rw [List.mem_erase_of_ne]
        rintro rfl
        exact distinct.1 member
      rw [others, places, cached, or_assoc]
      refine or_congr_right ?_
      simp only [List.mem_cons, exists_eq_or_imp]
      refine or_congr_right (exists_congr fun other => and_congr_right fun member => ?_)
      rw [apart other member]

/-- A round for a key that is gone. -/
theorem deactivateLookup_spec (kept : WellKept uniqueKeys plugin.lookups)
    (free : ¬ Placed plugin.lookups.indices (key, account, now)) :
    ∃ after, plugin.deactivateLookup account now key = .returned after ∧
      Carries plugin.lookups after.lookups ∧ after.cachedKeys = plugin.cachedKeys ∧
      ∀ place, Placed after.lookups.indices place ↔
        Placed plugin.lookups.indices place ∧ place ≠ (key, account, maximumTime) ∨
        Placed plugin.lookups.indices (key, account, maximumTime) ∧ place = (key, account, now) := by
  rw [Plugin.deactivateLookup]
  cases found : findLookup plugin.lookups (key, account, maximumTime) with
  | some id =>
    obtain ⟨lookup, stored, at_⟩ := placed_of_find found
    have target : ({ lookup with deactivationTime := now } : KeyLookup Key).place = (key, account, now) := by
      simp only [KeyLookup.place, Prod.mk.injEq] at at_ ⊢
      exact ⟨at_.1, at_.2.1, trivial⟩
    obtain ⟨after, done, carries, places⟩ := @modify_spec _ _ plugin.lookups lookup id kept stored
      (fun lookup => { lookup with deactivationTime := now }) (target ▸ free)
    refine ⟨{ plugin with lookups := after }, ?_, carries, rfl, ?_⟩
    · simp only [done, call_ok]
    · intro place
      have here : Placed plugin.lookups.indices (key, account, maximumTime) := ⟨id, lookup, stored, at_⟩
      rw [places, target, at_, and_iff_right here]
  | none =>
    have missing := find_eq_none_iff.mp found
    refine ⟨plugin, rfl, .refl _, rfl, fun place => ?_⟩
    constructor
    · intro placed
      refine .inl ⟨placed, ?_⟩
      rintro rfl
      exact missing placed
    · rintro (⟨placed, _⟩ | ⟨placed, _⟩)
      · exact placed
      · exact absurd placed missing

/-- The objects of the keys that are gone move to the time of the block, if their places there are
    free. -/
theorem deactivateLookups_spec (kept : WellKept uniqueKeys plugin.lookups) (distinct : keys.Nodup)
    (free : ∀ key ∈ keys, ¬ Placed plugin.lookups.indices (key, account, now)) :
    ∃ after, Outcome.each (fun _ plugin key => plugin.deactivateLookup account now key) plugin keys =
        .returned after ∧ Carries plugin.lookups after.lookups ∧ after.cachedKeys = plugin.cachedKeys ∧
      ∀ place, Placed after.lookups.indices place ↔
        Placed plugin.lookups.indices place ∧ (∀ key ∈ keys, place ≠ (key, account, maximumTime)) ∨
        ∃ key ∈ keys, Placed plugin.lookups.indices (key, account, maximumTime) ∧
          place = (key, account, now) := by
  induction keys generalizing plugin with
  | nil => exact ⟨plugin, rfl, .refl _, rfl, fun place => by simp⟩
  | cons key rest hypothesis =>
    rw [List.nodup_cons] at distinct
    rw [List.forall_mem_cons] at free
    obtain ⟨next, begun, carries, cached, places⟩ := deactivateLookup_spec kept free.1
    have apart : ∀ other ∈ rest, other ≠ key := by
      rintro other member rfl
      exact distinct.1 member
    have elsewhere : ∀ other ∈ rest, ∀ time, Placed next.lookups.indices (other, account, time) ↔
        Placed plugin.lookups.indices (other, account, time) := by
      intro other member time
      have different : ∀ later : Nat, (other, account, time) ≠ (key, account, later) := fun _ same =>
        apart other member (Prod.mk.inj same).1
      rw [places, and_iff_left (different _), or_iff_left fun moved => different _ moved.2]
    obtain ⟨after, ran, further, left, others⟩ := hypothesis (carries.kept kept) distinct.2
      fun other member => (elsewhere other member now).not.mpr (free.2 other member)
    refine ⟨after, by rw [Outcome.each_cons, begun]; exact ran, carries.trans further, left.trans cached, ?_⟩
    intro place
    have staying : place = (key, account, now) → ∀ other ∈ rest, place ≠ (other, account, maximumTime) := by
      rintro rfl other member same
      exact apart other member (Prod.mk.inj same).1.symm
    have moved : (∃ other ∈ rest, Placed next.lookups.indices (other, account, maximumTime) ∧
        place = (other, account, now)) ↔ ∃ other ∈ rest,
          Placed plugin.lookups.indices (other, account, maximumTime) ∧ place = (other, account, now) :=
      exists_congr fun other => and_congr_right fun member => by rw [elsewhere other member]
    rw [others, moved, places]
    simp only [List.mem_cons, exists_eq_or_imp, forall_eq_or_imp]
    constructor
    · rintro ((⟨⟨placed, here⟩ | gone, rest⟩) | later)
      · exact .inl ⟨placed, here, rest⟩
      · exact .inr (.inl gone)
      · exact .inr (.inr later)
    · rintro (⟨placed, here, rest⟩ | gone | later)
      · exact .inl ⟨.inl ⟨placed, here⟩, rest⟩
      · exact .inl ⟨.inr gone, staying gone.2⟩
      · exact .inr later

/-- What the handler makes of the places: those of the keys that are new are taken, and those of the
    keys that are gone change their time. -/
def Updates (account : String) (now : Nat) (cached keys : List Key)
    (before after : Objects (KeyLookup Key)) : Prop :=
  ∀ place, Placed after place ↔
    (Placed before place ∨ ∃ key ∈ keys, key ∉ cached ∧ place = (key, account, maximumTime)) ∧
      (∀ key ∈ cached, key ∉ keys → place ≠ (key, account, maximumTime)) ∨
    ∃ key ∈ cached, key ∉ keys ∧ Placed before (key, account, maximumTime) ∧ place = (key, account, now)

theorem mem_insertKey {set : List Key} {other : Key} : other ∈ insertKey set key ↔ other = key ∨ other ∈ set := by
  rw [insertKey]
  by_cases member : key ∈ set
  · rw [if_pos member, iff_or_self]
    rintro rfl
    exact member
  · rw [if_neg member, List.mem_orderedInsert]

theorem nodup_insertKey {set : List Key} (distinct : set.Nodup) : (insertKey set key).Nodup := by
  rw [insertKey]
  by_cases member : key ∈ set
  · rwa [if_pos member]
  · rw [if_neg member, (List.perm_orderedInsert _ key set).nodup_iff]
    exact List.nodup_cons.mpr ⟨member, distinct⟩

theorem AccountAuthority.nodup_keys (authority : AccountAuthority Key) : authority.keys.Nodup := by
  rw [AccountAuthority.keys]
  generalize authority.owner.keyAuths ++ authority.active.keyAuths = items
  suffices all : ∀ set : List Key, set.Nodup →
      (items.foldl (fun set item => insertKey set item.1) set).Nodup from all [] List.nodup_nil
  induction items with
  | nil => exact fun _ distinct => distinct
  | cons item rest hypothesis => exact fun set distinct => hypothesis _ (nodup_insertKey distinct)

/-- The handler of an account whose keys were remembered. -/
theorem updateKeyLookup_spec (authority : AccountAuthority Key) (kept : WellKept uniqueKeys plugin.lookups)
    (distinct : plugin.cachedKeys.Nodup)
    (free : ∀ key ∈ plugin.cachedKeys, key ∉ authority.keys →
      ¬ Placed plugin.lookups.indices (key, authority.account, now)) :
    ∃ after, plugin.updateKeyLookup authority now = .returned after ∧
      Carries plugin.lookups after.lookups ∧
      Updates authority.account now plugin.cachedKeys authority.keys plugin.lookups.indices
        after.lookups.indices := by
  obtain ⟨added, first, carries, cached, places⟩ := @addLookups_spec _ _ plugin authority.account
    authority.keys kept authority.nodup_keys
  have gone (key : Key) : key ∈ added.cachedKeys ↔ key ∈ plugin.cachedKeys ∧ key ∉ authority.keys := by
    rw [cached]
    exact distinct.mem_sdiff_iff
  have same (key : Key) (missing : key ∉ authority.keys) (time : Nat) :
      Placed added.lookups.indices (key, authority.account, time) ↔
        Placed plugin.lookups.indices (key, authority.account, time) := by
    rw [places, or_iff_left]
    rintro ⟨other, member, _, equal⟩
    exact missing ((Prod.mk.inj equal).1 ▸ member)
  obtain ⟨after, second, further, left, others⟩ := @deactivateLookups_spec _ _ added authority.account
    added.cachedKeys now (carries.kept kept) (cached ▸ distinct.diff) fun key member => by
      have was := (gone key).mp member
      rw [same key was.2]
      exact free key was.1 was.2
  refine ⟨{ after with cachedKeys := [] }, ?_, carries.trans further, fun place => ?_⟩
  · simp only [Plugin.updateKeyLookup, first, second, Outcome.andThen_returned]
  · rw [others, places]
    refine or_congr (and_congr_right fun _ => ?_) (exists_congr fun key => ?_)
    · exact forall_congr' fun key => by rw [gone, and_imp]
    · rw [gone, and_assoc]
      refine and_congr_right fun _ => and_congr_right fun missing => ?_
      rw [same key missing]

end Loops

/-! ## What the objects say of the accounts -/

/-- The accounts that were created while the plugin ran have an object at the largest time for each
    of their keys and for no other key, and one for each key that they ever had. -/
structure Indexed (chain : Chain Key) (objects : Objects (KeyLookup Key)) : Prop where
  active : ∀ authority ∈ chain.authorities, authority.account ∈ chain.created → ∀ key,
    Placed objects (key, authority.account, maximumTime) ↔ key ∈ authority.keys
  remembered : ∀ account key, (account, key) ∈ chain.held → account ∈ chain.created →
    ∃ time, Placed objects (key, account, time)

/-- Beside that, accounts are told apart by their names, and there are objects of accounts only. -/
structure Sound (chain : Chain Key) (objects : Objects (KeyLookup Key)) : Prop
    extends Indexed chain objects where
  names : (chain.authorities.map AccountAuthority.account).Nodup
  known : ∀ key account time, Placed objects (key, account, time) →
    account ∈ chain.authorities.map AccountAuthority.account
  heirs : ∀ account key, (account, key) ∈ chain.held →
    account ∈ chain.authorities.map AccountAuthority.account

/-- No key that the operation takes from the account was taken from it at the time of the head. -/
def Operation.Quiet (node : Node Key) (op : Operation Key) : Prop :=
  ∀ authority, node.chain.find op.account = some authority →
    ∀ key ∈ authority.keys, key ∉ (op.change authority).keys →
      findLookup node.plugin.lookups (key, op.account, node.chain.headBlockTime) = none

section Updating

variable {account other : String} {now : Nat} {cached keys : List Key}
  {before after : Objects (KeyLookup Key)} {key : Key}

omit [LinearOrder Key] in
/-- Other accounts keep their objects. -/
theorem Updates.elsewhere (updates : Updates account now cached keys before after)
    (apart : other ≠ account) (time : Nat) :
    Placed after (key, other, time) ↔ Placed before (key, other, time) := by
  have different (first : Key) (later : Nat) : (key, other, time) ≠ (first, account, later) := fun same =>
    apart (Prod.mk.inj (Prod.mk.inj same).2).1
  rw [updates]
  constructor
  · rintro (⟨placed | ⟨first, _, _, same⟩, _⟩ | ⟨first, _, _, _, same⟩)
    · exact placed
    · exact absurd same (different first _)
    · exact absurd same (different first _)
  · exact fun placed => .inl ⟨.inl placed, fun first _ _ => different first _⟩

/-- The account has objects for its keys. -/
theorem Updates.active (updates : Updates account now cached keys before after)
    (was : ∀ key, Placed before (key, account, maximumTime) ↔ key ∈ cached)
    (free : ∀ key ∈ cached, key ∉ keys → ¬ Placed before (key, account, now)) (key : Key) :
    Placed after (key, account, maximumTime) ↔ key ∈ keys := by
  rw [updates]
  constructor
  · rintro (⟨placed | ⟨first, member, _, same⟩, stays⟩ | ⟨first, member, gone, placed, same⟩)
    · by_contra missing
      exact stays key ((was key).mp placed) missing rfl
    · exact (Prod.mk.inj same).1 ▸ member
    · -- the block has the largest time, so the place was taken
      exact absurd (by rw [← (Prod.mk.inj (Prod.mk.inj same).2).2]; exact placed) (free first member gone)
  · intro member
    refine .inl ⟨?_, fun first _ gone same => gone ((Prod.mk.inj same).1 ▸ member)⟩
    by_cases old : key ∈ cached
    · exact .inl ((was key).mpr old)
    · exact .inr ⟨key, member, old, rfl⟩

/-- An object stays one of its key and account. -/
theorem Updates.remembered (updates : Updates account now cached keys before after) {time : Nat}
    (placed : Placed before (key, other, time)) : ∃ time, Placed after (key, other, time) := by
  by_cases moves : ∃ first ∈ cached, first ∉ keys ∧ (key, other, time) = (first, account, maximumTime)
  · obtain ⟨first, member, gone, same⟩ := moves
    refine ⟨now, (updates _).mpr (.inr ⟨first, member, gone, same ▸ placed, ?_⟩)⟩
    simp only [Prod.mk.injEq] at same ⊢
    exact ⟨same.1, same.2.1, trivial⟩
  · refine ⟨time, (updates _).mpr (.inl ⟨.inl placed, ?_⟩)⟩
    exact fun first member gone same => moves ⟨first, member, gone, same⟩

omit [LinearOrder Key] in
/-- The places after the handler are of the account or were taken. -/
theorem Updates.known (updates : Updates account now cached keys before after) {time : Nat}
    (placed : Placed after (key, other, time)) :
    other = account ∨ Placed before (key, other, time) := by
  by_cases same : other = account
  · exact .inl same
  · exact .inr ((updates.elsewhere same time).mp placed)

end Updating

section Evaluation

variable {chain next : Chain Key} {op : Operation Key} {plugin : Plugin Key}

omit [LinearOrder Key] in
theorem Operation.change_account (op : Operation Key) (authority : AccountAuthority Key) :
    (op.change authority).account = authority.account := by
  cases op <;> rfl

/-- The chain after an operation on an account that is there. -/
def Chain.changed (chain : Chain Key) (op : Operation Key) (authority : AccountAuthority Key) : Chain Key :=
  { chain with
    authorities := modifyFirst (fun authority => authority.account == op.account)
      (fun authority => op.change authority) chain.authorities
    held := (op.change authority).keys.map (op.account, ·) ++ chain.held }

/-- The chain after an account is created. -/
def Chain.extended (chain : Chain Key) (authority : AccountAuthority Key) : Chain Key :=
  { chain with
    authorities := chain.authorities ++ [authority]
    created := authority.account :: chain.created
    held := authority.keys.map (authority.account, ·) ++ chain.held }

/-- An operation creates an account or changes one, whose keys were remembered. -/
theorem evaluate_cases (ran : chain.evaluate op = .ok next) :
    (∃ authority, authority.account = op.account ∧
      authority.account ∉ chain.authorities.map AccountAuthority.account ∧
      plugin.preOperation chain op = { plugin with cachedKeys := [] } ∧ next = chain.extended authority) ∨
    ∃ authority, chain.find op.account = some authority ∧
      plugin.preOperation chain op = { plugin with cachedKeys := authority.keys } ∧
      next = chain.changed op authority := by
  cases op with
  | createAccount newAccountName owner active =>
    simp only [Chain.evaluate, bind_ok_iff, require_ok_iff, exists_const, pure_ok_iff] at ran
    exact .inl ⟨⟨newAccountName, owner, active⟩, rfl, ran.1, rfl, ran.2.symm⟩
  | updateAccount account owner active =>
    simp only [Chain.evaluate, bind_ok_iff, expect_ok_iff, pure_ok_iff] at ran
    obtain ⟨authority, found, rfl⟩ := ran
    exact .inr ⟨authority, found, by simp only [Plugin.preOperation, found]; rfl, rfl⟩
  | recoverAccount account owner =>
    simp only [Chain.evaluate, bind_ok_iff, expect_ok_iff, pure_ok_iff] at ran
    obtain ⟨authority, found, rfl⟩ := ran
    exact .inr ⟨authority, found, by simp only [Plugin.preOperation, found]; rfl, rfl⟩

omit [LinearOrder Key] in
theorem find_member {account : String} {authority : AccountAuthority Key}
    (found : chain.find account = some authority) :
    authority ∈ chain.authorities ∧ authority.account = account :=
  ⟨List.mem_of_find?_eq_some found, by simpa using List.find?_some found⟩

theorem find_extended {authority : AccountAuthority Key}
    (fresh : authority.account ∉ chain.authorities.map AccountAuthority.account) :
    (chain.extended authority).find authority.account = some authority := by
  have missing : chain.authorities.find? (fun other => other.account == authority.account) = none := by
    rw [List.find?_eq_none]
    intro other member same
    exact fresh (List.mem_map.mpr ⟨other, member, beq_iff_eq.mp same⟩)
  rw [Chain.find, Chain.extended, List.find?_append, missing, Option.none_or]
  simp

theorem find_changed {authority : AccountAuthority Key} (found : chain.find op.account = some authority) :
    (chain.changed op authority).find op.account = some (op.change authority) := by
  have named := (find_member found).2
  refine find?_modifyFirst found ?_
  rw [op.change_account, named, beq_self_eq_true]

end Evaluation

section Operations

variable {chain : Chain Key} {op : Operation Key} {before after : Objects (KeyLookup Key)}
  {authority : AccountAuthority Key}

/-- An account that is created gets an object for each of its keys. -/
theorem Sound.extended (sound : Sound chain before)
    (fresh : authority.account ∉ chain.authorities.map AccountAuthority.account)
    (updates : Updates authority.account chain.headBlockTime [] authority.keys before after) :
    Sound (chain.extended authority) after := by
  have nothing : ∀ key, Placed before (key, authority.account, maximumTime) ↔ key ∈ ([] : List Key) := by
    intro key
    simp only [List.not_mem_nil, iff_false]
    exact fun placed => fresh (sound.known _ _ _ placed)
  have complete := updates.active nothing (by simp)
  have column : (chain.extended authority).authorities.map AccountAuthority.account =
      chain.authorities.map AccountAuthority.account ++ [authority.account] := List.map_append
  have apart : ∀ other ∈ chain.authorities, other.account ≠ authority.account := fun other member same =>
    fresh (List.mem_map.mpr ⟨other, member, same⟩)
  have heirs : ∀ account key, (account, key) ∈ (chain.extended authority).held →
      account = authority.account ∧ key ∈ authority.keys ∨ (account, key) ∈ chain.held := by
    intro account key member
    rcases List.mem_append.mp member with new | old
    · obtain ⟨own, there, same⟩ := List.mem_map.mp new
      cases same
      exact .inl ⟨rfl, there⟩
    · exact .inr old
  refine ⟨⟨?_, ?_⟩, ?_, ?_, ?_⟩
  · intro other member created key
    rcases List.mem_append.mp member with old | new
    · rw [updates.elsewhere (apart other old)]
      refine sound.active other old ?_ key
      exact (List.mem_cons.mp created).resolve_left (apart other old)
    · rw [List.mem_singleton.mp new]
      exact complete key
  · intro account key member created
    rcases heirs account key member with ⟨rfl, there⟩ | old
    · exact ⟨maximumTime, (complete key).mpr there⟩
    · have elsewhere : account ≠ authority.account := fun same => fresh (same ▸ sound.heirs _ _ old)
      obtain ⟨time, placed⟩ := sound.remembered account key old
        ((List.mem_cons.mp created).resolve_left elsewhere)
      exact updates.remembered placed
  · rw [column, List.nodup_append]
    refine ⟨sound.names, List.nodup_singleton _, ?_⟩
    rintro name member _ single rfl
    exact fresh (List.mem_singleton.mp single ▸ member)
  · intro key account time placed
    rw [column, List.mem_append, List.mem_singleton]
    rcases updates.known placed with same | old
    · exact .inr same
    · exact .inl (sound.known _ _ _ old)
  · intro account key member
    rw [column, List.mem_append, List.mem_singleton]
    rcases heirs account key member with ⟨same, _⟩ | old
    · exact .inr same
    · exact .inl (sound.heirs _ _ old)

/-- A change of the authorities of an account moves the objects of its keys. -/
theorem Sound.changed (sound : Sound chain before) (found : chain.find op.account = some authority)
    (updates : Updates op.account chain.headBlockTime authority.keys (op.change authority).keys before after)
    (free : ∀ key ∈ authority.keys, key ∉ (op.change authority).keys →
      ¬ Placed before (key, op.account, chain.headBlockTime)) :
    Sound (chain.changed op authority) after := by
  obtain ⟨member, named⟩ := find_member found
  have complete (created : op.account ∈ chain.created) (key : Key) :
      Placed after (key, op.account, maximumTime) ↔ key ∈ (op.change authority).keys := by
    refine updates.active (fun key => ?_) free key
    rw [← named]
    exact sound.active authority member (named ▸ created) key
  have column : (chain.changed op authority).authorities.map AccountAuthority.account =
      chain.authorities.map AccountAuthority.account := map_modifyFirst op.change_account
  have listed : op.account ∈ chain.authorities.map AccountAuthority.account :=
    List.mem_map.mpr ⟨authority, member, named⟩
  have heirs : ∀ account key, (account, key) ∈ (chain.changed op authority).held →
      account = op.account ∧ key ∈ (op.change authority).keys ∨ (account, key) ∈ chain.held := by
    intro account key member
    rcases List.mem_append.mp member with new | old
    · obtain ⟨own, there, same⟩ := List.mem_map.mp new
      cases same
      exact .inl ⟨rfl, there⟩
    · exact .inr old
  refine ⟨⟨?_, ?_⟩, ?_, ?_, ?_⟩
  · intro other there created key
    rcases (mem_modifyFirst_iff sound.names found).mp there with ⟨old, apart⟩ | rfl
    · rw [updates.elsewhere apart]
      exact sound.active other old created key
    · rw [op.change_account, named] at created ⊢
      exact complete created key
  · intro account key there created
    rcases heirs account key there with ⟨rfl, owns⟩ | old
    · exact ⟨maximumTime, (complete created key).mpr owns⟩
    · obtain ⟨time, placed⟩ := sound.remembered account key old created
      exact updates.remembered placed
  · rw [column]
    exact sound.names
  · intro key account time placed
    rw [column]
    rcases updates.known placed with rfl | old
    · exact listed
    · exact sound.known _ _ _ old
  · intro account key there
    rw [column]
    rcases heirs account key there with ⟨rfl, _⟩ | old
    · exact listed
    · exact sound.heirs _ _ old

/-- An operation that takes no key a second time: the handler returns, no object goes, and the objects
    are as they should be. -/
theorem operate_spec {node next : Node Key} {op : Operation Key}
    (sound : Sound node.chain node.plugin.lookups.indices)
    (kept : WellKept uniqueKeys node.plugin.lookups) (quiet : op.Quiet node)
    (ran : node.operate op = .ok next) :
    (node.plugin.preOperation node.chain op).postOperation next.chain op = .returned next.plugin ∧
      next.saved = node.saved ∧ Carries node.plugin.lookups next.plugin.lookups ∧
      Sound next.chain next.plugin.lookups.indices := by
  obtain ⟨chain, evaluated, wrote⟩ := bind_ok_iff.mp ran
  obtain rfl := pure_ok_iff.mp wrote
  rcases @evaluate_cases _ _ _ _ _ node.plugin evaluated with
    ⟨authority, named, fresh, cached, rfl⟩ | ⟨authority, found, cached, rfl⟩
  · obtain ⟨after, updated, carries, updates⟩ := @updateKeyLookup_spec _ _
      { node.plugin with cachedKeys := [] } node.chain.headBlockTime authority kept List.nodup_nil (by simp)
    have handled : (node.plugin.preOperation node.chain op).postOperation (node.chain.extended authority) op =
        .returned after := by
      rw [cached, Plugin.postOperation, ← named, find_extended fresh]
      exact updated
    simp only [handled]
    exact ⟨rfl, trivial, carries, sound.extended fresh updates⟩
  · have free : ∀ key ∈ authority.keys, key ∉ (op.change authority).keys →
        ¬ Placed node.plugin.lookups.indices (key, op.account, node.chain.headBlockTime) :=
      fun key member gone => find_eq_none_iff.mp (quiet authority found key member gone)
    have named : (op.change authority).account = op.account :=
      (op.change_account authority).trans (find_member found).2
    obtain ⟨after, updated, carries, updates⟩ := @updateKeyLookup_spec _ _
      { node.plugin with cachedKeys := authority.keys } node.chain.headBlockTime (op.change authority) kept
      authority.nodup_keys (named ▸ free)
    have handled : (node.plugin.preOperation node.chain op).postOperation (node.chain.changed op authority) op =
        .returned after := by
      rw [cached, Plugin.postOperation, find_changed found]
      exact updated
    simp only [handled]
    exact ⟨rfl, trivial, carries, sound.changed found (named ▸ updates) free⟩

end Operations

/-! ## Sessions -/

/-- The index is in the sessions that are open, each of which started with the objects as they should
    be. -/
def Stacked : List (Chain Key) → KeyLookupIndex Key → Prop
  | [], lookups => lookups.stack = [] ∧ WellKept uniqueKeys lookups
  | chain :: saved, lookups => ∃ base, Session uniqueKeys base lookups ∧ Sound chain base.indices ∧
      Stacked saved base

namespace Stacked

variable {chain : Chain Key} {saved : List (Chain Key)} {lookups after : KeyLookupIndex Key}

theorem kept (stacked : Stacked saved lookups) : WellKept uniqueKeys lookups := by
  cases saved with
  | nil => exact stacked.2
  | cons chain saved =>
    obtain ⟨_, session, _⟩ := stacked
    exact session.kept

theorem carry (stacked : Stacked saved lookups) (carries : Carries lookups after) : Stacked saved after := by
  cases saved with
  | nil => exact ⟨carries.bottom stacked.1, carries.kept stacked.2⟩
  | cons chain saved =>
    obtain ⟨base, session, sound, below⟩ := stacked
    exact ⟨base, carries.session base session, sound, below⟩

theorem startSession (stacked : Stacked saved lookups) (sound : Sound chain lookups.indices) :
    Stacked (chain :: saved) lookups.startUndoSession :=
  ⟨lookups, session_start stacked.kept, sound, stacked⟩

theorem undo (stacked : Stacked (chain :: saved) lookups)
    (done : lookups.undo uniqueKeys = .ok () after) : Sound chain after.indices ∧ Stacked saved after := by
  obtain ⟨base, session, sound, below⟩ := stacked
  obtain rfl := session.eq_of_undo done
  exact ⟨sound, below⟩

theorem squash (stacked : Stacked saved lookups) : Stacked saved.tail lookups.squash := by
  cases saved with
  | nil =>
    rw [GenericIndex.squash, stacked.1]
    exact stacked
  | cons chain rest =>
    obtain ⟨base, session, _, below⟩ := stacked
    cases rest with
    | nil =>
      obtain ⟨head, top, _⟩ := session.top
      rw [below.1] at top
      rw [GenericIndex.squash, top]
      exact ⟨rfl, session.kept.unique, session.kept.below⟩
    | cons other rest =>
      obtain ⟨bottom, outer, sound, beneath⟩ := below
      exact ⟨bottom, outer.squash session, sound, beneath⟩

/-- The oldest sessions are forgotten. -/
theorem truncate (stacked : Stacked saved lookups) (count : Nat) :
    Stacked (saved.take count) { lookups with stack := lookups.stack.take count } := by
  induction saved generalizing lookups count with
  | nil =>
    rw [List.take_nil]
    exact ⟨by rw [stacked.1, List.take_nil], stacked.2.unique, stacked.2.below⟩
  | cons chain rest hypothesis =>
    cases count with
    | zero => exact ⟨rfl, stacked.kept.unique, stacked.kept.below⟩
    | succ count =>
      obtain ⟨base, session, sound, below⟩ := stacked
      refine ⟨{ base with stack := base.stack.take count }, ?_, sound, hypothesis below count⟩
      obtain ⟨head, top, next, numbered, records⟩ := session.top
      exact
        { top := ⟨head, by rw [top, List.take_succ_cons], next, numbered, records⟩
          revision := session.revision
          start := ⟨session.start.unique, session.start.below⟩
          grown := session.grown
          kept := ⟨session.kept.unique, session.kept.below⟩ }

theorem commit (stacked : Stacked saved lookups) (revision : Int) :
    Stacked (saved.take (lookups.commit revision).stack.length) (lookups.commit revision) := by
  have shorter : (lookups.commit revision).stack =
      lookups.stack.take (lookups.commit revision).stack.length := by
    rw [← List.prefix_iff_eq_take]
    have suffix := List.dropWhile_suffix (l := lookups.stack.reverse) fun state => state.revision ≤ revision
    rw [← List.reverse_prefix, List.reverse_reverse] at suffix
    exact suffix
  have kept := stacked.truncate (lookups.commit revision).stack.length
  rw [← shorter] at kept
  exact kept

end Stacked

/-! ## Runs -/

/-- The state of a node between events. -/
structure Consistent (node : Node Key) : Prop where
  sound : Sound node.chain node.plugin.lookups.indices
  stacked : Stacked node.saved node.plugin.lookups

/-- The operations of a run take no key from an account a second time in a block. -/
def Event.Quiet (node : Node Key) : Event Key → Prop
  | .operation op => op.Quiet node
  | _ => True

section Runs

variable {node next : Node Key} {event : Event Key}

theorem preOperation_lookups (plugin : Plugin Key) (chain : Chain Key) (op : Operation Key) :
    (plugin.preOperation chain op).lookups = plugin.lookups := by
  cases op <;> rfl

/-- Operations that leave the keys leave what the objects say. -/
theorem Sound.other {chain : Chain Key} {objects : Objects (KeyLookup Key)}
    {authorities : List (AccountAuthority Key)} (sound : Sound chain objects)
    (same : keysOf authorities = keysOf chain.authorities) : Sound { chain with authorities } objects := by
  have column : authorities.map AccountAuthority.account =
      chain.authorities.map AccountAuthority.account := by
    have names := congrArg (List.map Prod.fst) same
    rw [keysOf, keysOf, List.map_map, List.map_map] at names
    exact names
  refine ⟨⟨?_, sound.remembered⟩, ?_, ?_, ?_⟩
  · intro authority member created key
    have listed : (authority.account, authority.keys) ∈ keysOf chain.authorities := by
      rw [← same]
      exact List.mem_map_of_mem member
    obtain ⟨before, there, equal⟩ := List.mem_map.mp listed
    obtain ⟨named, keys⟩ := Prod.mk.inj equal
    rw [← named, ← keys]
    exact sound.active before there (named ▸ created) key
  · exact column ▸ sound.names
  · exact fun key account time placed => column ▸ sound.known key account time placed
  · exact fun account key member => column ▸ sound.heirs account key member

theorem Consistent.step (consistent : Consistent node) (quiet : event.Quiet node)
    (ran : node.step event = .ok next) : Consistent next := by
  obtain ⟨sound, stacked⟩ := consistent
  cases event with
  | operation op =>
    obtain ⟨_, saved, carries, holds⟩ := operate_spec sound stacked.kept quiet ran
    exact ⟨holds, saved ▸ stacked.carry carries⟩
  | refused op =>
    obtain rfl := pure_ok_iff.mp ran
    exact ⟨by rw [preOperation_lookups]; exact sound, by rw [preOperation_lookups]; exact stacked⟩
  | other authorities =>
    obtain ⟨_, same, wrote⟩ := bind_ok_iff.mp ran
    obtain rfl := pure_ok_iff.mp wrote
    exact ⟨sound.other (require_ok_iff.mp same), stacked⟩
  | advance time =>
    obtain rfl := pure_ok_iff.mp ran
    exact ⟨⟨⟨sound.active, sound.remembered⟩, sound.names, sound.known, sound.heirs⟩, stacked⟩
  | startSession =>
    obtain rfl := pure_ok_iff.mp ran
    exact ⟨sound, stacked.startSession sound⟩
  | undo =>
    rw [Node.step] at ran
    cases done : node.plugin.lookups.undo uniqueKeys with
    | error thrown lookups =>
      rw [done] at ran
      cases saved : node.saved with
      | nil => rw [saved] at ran; cases ran
      | cons chain rest => rw [saved] at ran; cases ran
    | ok result lookups =>
      rw [done] at ran
      cases saved : node.saved with
      | nil =>
        rw [saved] at ran
        obtain rfl := pure_ok_iff.mp ran
        exact ⟨sound, stacked⟩
      | cons chain rest =>
        rw [saved] at ran stacked
        obtain rfl := pure_ok_iff.mp ran
        obtain ⟨holds, below⟩ := stacked.undo done
        exact ⟨holds, below⟩
  | squash =>
    obtain rfl := pure_ok_iff.mp ran
    exact ⟨by rw [GenericIndex.indices_squash]; exact sound, stacked.squash⟩
  | commit revision =>
    obtain rfl := pure_ok_iff.mp ran
    exact ⟨sound, stacked.commit revision⟩

theorem Consistent.run {events : List (Event Key)} (consistent : Consistent node)
    (quiet : Along Node.step (fun node event => event.Quiet node) node events)
    (ran : events.foldlM Node.step node = .ok next) : Consistent next := by
  induction events generalizing node with
  | nil =>
    obtain rfl := pure_ok_iff.mp ran
    exact consistent
  | cons event rest hypothesis =>
    rw [List.foldlM_cons] at ran
    obtain ⟨middle, first, later⟩ := bind_ok_iff.mp ran
    exact hypothesis (consistent.step quiet.1 first) (quiet.2 middle first) later

theorem consistent_genesis {authorities : List (AccountAuthority Key)}
    (names : (authorities.map AccountAuthority.account).Nodup) (time : Nat) :
    Consistent (genesis authorities time) where
  sound :=
    { active := fun _ _ created => by cases created
      remembered := fun _ _ member => by cases member
      names := names
      known := by
        rintro key account time ⟨id, lookup, stored, _⟩
        simp [genesis, GenericIndex.empty] at stored
      heirs := fun _ _ member => by cases member }
  stacked := ⟨rfl, wellKept_empty uniqueKeys⟩

/-- The handler of an operation throws nothing, and no object is lost. -/
def Serves (node : Node Key) (op : Operation Key) (next : Node Key) : Prop :=
  (node.plugin.preOperation node.chain op).postOperation next.chain op = .returned next.plugin ∧
    ∀ id, id ∈ node.plugin.lookups.indices → id ∈ next.plugin.lookups.indices

end Runs

/-! ## Keys that come and go -/

namespace Sample

def keyed (keys : List Nat) : Authority String Nat := ⟨1, [], keys.map (·, 1)⟩

/-- An account is created, loses two keys and gets them back, all in one block. In the session of a
    proposal it gets another key, and the proposal fails. -/
def swaps : List (Event Nat) :=
  [.operation (.createAccount "alice" (keyed [1]) (keyed [2, 4])),
    .operation (.updateAccount "alice" none (some (keyed [3]))),
    .operation (.updateAccount "alice" none (some (keyed [2, 4]))),
    .startSession,
    .operation (.updateAccount "alice" (some (keyed [1, 5])) none),
    .refused (.updateAccount "alice" (some (keyed [6])) none),
    .undo]

def quiet (node : Node Nat) : Event Nat → Bool
  | .operation op => (node.chain.find op.account).all fun authority =>
    authority.keys.all fun key => decide (key ∈ (op.change authority).keys) ||
      (findLookup node.plugin.lookups (key, op.account, node.chain.headBlockTime)).isNone
  | _ => true

theorem quiet_of_test (node : Node Nat) (event : Event Nat) (tested : quiet node event = true) :
    event.Quiet node := by
  cases event with
  | operation op =>
    intro authority found key member gone
    rw [quiet, found, Option.all_some, List.all_eq_true] at tested
    simpa [gone] using tested key member
  | _ => trivial

/-- Then the account loses the two keys again. -/
def again : List (Event Nat) := swaps ++ [.operation (.updateAccount "alice" none (some (keyed [3])))]

end Sample

end DeipChain.AccountByKey
