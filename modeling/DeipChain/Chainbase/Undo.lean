import DeipChain.Chainbase.GenericIndex

/-!
# What an undo state records, and when it can be replayed

An undo state relates the objects at the start of its session to the objects the
session has reached: every identifier is new, modified, removed or untouched, and
the state holds the starting value of the modified and the removed ones. Each
successful call keeps this relation, so it holds after every sequence of calls.

Undo gives the modified objects their old values back one at a time, by ascending
identifier, while the objects created in the session are still there. A starting
value can therefore meet its own key in an object that has not been restored or
erased yet. `Restorable` says that this does not happen; it is exactly the
condition under which undo returns the index of the start of the session.
-/
namespace DeipChain.Chainbase

open Std OrderedMap

variable {V K : Type}

/-- Every identifier in use is below the next one to be given. -/
def Below (objects : Objects V) (next : Nat) : Prop :=
  ∀ id, id ∈ objects → id < next

instance (objects : Objects V) (next : Nat) : Decidable (Below objects next) :=
  decidable_of_iff (∀ item ∈ objects.toList, item.1 < next) <| by
    constructor
    · intro all id member
      obtain ⟨value, stored⟩ := mem_iff_lookup.mp member
      exact all (id, value) (ExtTreeMap.mem_toList_iff_getElem?_eq_some.mpr stored)
    · intro below item member
      exact below item.1 (mem_iff_lookup.mpr
        ⟨item.2, ExtTreeMap.mem_toList_iff_getElem?_eq_some.mp member⟩)

/-- The record of one session: what each identifier's entry says about the
objects before and after. -/
structure Records (state : UndoState V) (before after : Objects V) : Prop where
  numbered : ∀ id, id ∈ state.newIds → state.oldNextId ≤ id
  created : ∀ id, id ∈ state.newIds → before[id]? = none ∧ id ∈ after
  modified : ∀ id value, state.oldValues[id]? = some value →
    before[id]? = some value ∧ id ∈ after
  removed : ∀ id value, state.removedValues[id]? = some value →
    before[id]? = some value ∧ id ∉ after
  untouched : ∀ id, id ∉ state.newIds → state.oldValues[id]? = none →
    state.removedValues[id]? = none → after[id]? = before[id]?

/-- A fresh session records nothing. -/
theorem records_start (objects : Objects V) (next : Nat) (revision : Int) :
    Records { oldValues := ∅, removedValues := ∅, newIds := ∅, oldNextId := next,
              revision := revision } objects objects := by
  constructor <;> simp

namespace Records

variable {state : UndoState V} {before after : Objects V}

/-- An object that is there now was not removed in the session. -/
theorem not_removed (records : Records state before after) {id : Nat} (present : id ∈ after) :
    state.removedValues[id]? = none := by
  cases entry : state.removedValues[id]? with
  | none => rfl
  | some value => exact absurd present (records.removed id value entry).2

/-- An object that is there now and has no entry has its starting value. -/
theorem value_untouched (records : Records state before after) {id : Nat} {value : V}
    (current : after[id]? = some value) (old : id ∉ state.newIds)
    (unmodified : state.oldValues[id]? = none) : before[id]? = some value := by
  have present : id ∈ after := mem_iff_lookup.mpr ⟨value, current⟩
  have same := records.untouched id old unmodified (records.not_removed present)
  rw [← same, current]

/-- A created object is recorded as new. -/
theorem create (records : Records state before after) {id : Nat} (value : V)
    (fresh : before[id]? = none) (later : state.oldNextId ≤ id) :
    Records { state with newIds := state.newIds.insert id } before (after.insert id value) where
  numbered other recorded := by
    by_cases same : id = other
    · exact same ▸ later
    · exact records.numbered other (by simpa [same] using recorded)
  created other recorded := by
    by_cases same : id = other
    · subst same
      exact ⟨fresh, by simp⟩
    · have known := records.created other (by simpa [same] using recorded)
      exact ⟨known.1, by simp [known.2]⟩
  modified other old entry := by
    have known := records.modified other old entry
    exact ⟨known.1, by simp [known.2]⟩
  removed other old entry := by
    have known := records.removed other old entry
    have different : id ≠ other := by
      rintro rfl
      simp [known.1] at fresh
    exact ⟨known.1, by simp [different, known.2]⟩
  untouched other unrecorded unmodified kept := by
    have different : id ≠ other := by
      rintro rfl
      simp at unrecorded
    have outside : other ∉ state.newIds := by simpa [different] using unrecorded
    simpa [lookup_insert, different] using
      records.untouched other outside unmodified kept

/-- A changed object keeps its entry, when it has one. -/
theorem change_known (records : Records state before after) {id : Nat} (value : V)
    (present : id ∈ after) (known : id ∈ state.newIds ∨ state.oldValues[id]?.isSome) :
    Records state before (after.insert id value) where
  numbered := records.numbered
  created other recorded := by
    have entry := records.created other recorded
    exact ⟨entry.1, by simp [entry.2]⟩
  modified other old entry := by
    have earlier := records.modified other old entry
    exact ⟨earlier.1, by simp [earlier.2]⟩
  removed other old entry := by
    have earlier := records.removed other old entry
    have different : id ≠ other := by
      rintro rfl
      exact earlier.2 present
    exact ⟨earlier.1, by simp [different, earlier.2]⟩
  untouched other outside unmodified kept := by
    have different : id ≠ other := by
      rintro rfl
      rcases known with new | old
      · exact outside new
      · simp [unmodified] at old
    simpa [lookup_insert, different] using
      records.untouched other outside unmodified kept

/-- The first change of an object without entry records its current value, which
is its value at the start. -/
theorem change_first (records : Records state before after) {id : Nat} {current : V} (value : V)
    (present : after[id]? = some current) (old : id ∉ state.newIds)
    (unmodified : state.oldValues[id]? = none) :
    Records { state with oldValues := state.oldValues.insert id current } before
      (after.insert id value) where
  numbered := records.numbered
  created other recorded := by
    have entry := records.created other recorded
    exact ⟨entry.1, by simp [entry.2]⟩
  modified other earlier entry := by
    by_cases same : id = other
    · subst same
      have value : current = earlier := by simpa using entry
      subst value
      exact ⟨records.value_untouched present old unmodified, by simp⟩
    · have known := records.modified other earlier
        (by simpa [lookup_insert, same] using entry)
      exact ⟨known.1, by simp [known.2]⟩
  removed other earlier entry := by
    have known := records.removed other earlier entry
    have different : id ≠ other := by
      rintro rfl
      exact known.2 (mem_iff_lookup.mpr ⟨current, present⟩)
    exact ⟨known.1, by simp [different, known.2]⟩
  untouched other outside entry kept := by
    have different : id ≠ other := by
      rintro rfl
      simp at entry
    have unmodifiedOther : state.oldValues[other]? = none := by
      simpa [lookup_insert, different] using entry
    simpa [lookup_insert, different] using
      records.untouched other outside unmodifiedOther kept

/-- The removal of an object created in the session leaves no trace of it. -/
theorem remove_new (records : Records state before after) {id : Nat} (new : id ∈ state.newIds) :
    Records { state with newIds := state.newIds.erase id } before (after.erase id) where
  numbered other recorded := records.numbered other (ExtTreeSet.mem_of_mem_erase recorded)
  created other recorded := by
    have both : ¬ id = other ∧ other ∈ state.newIds := by simpa using recorded
    have entry := records.created other both.2
    exact ⟨entry.1, by simp [both.1, entry.2]⟩
  modified other earlier entry := by
    have known := records.modified other earlier entry
    have different : id ≠ other := by
      rintro rfl
      simp [(records.created id new).1] at known
    exact ⟨known.1, by simp [different, known.2]⟩
  removed other earlier entry := by
    have known := records.removed other earlier entry
    exact ⟨known.1, by simp [known.2]⟩
  untouched other outside unmodified kept := by
    by_cases same : id = other
    · subst same
      simp [(records.created id new).1]
    · have unrecorded : other ∉ state.newIds := by
        intro recorded
        exact outside (by simp [same, recorded])
      simpa [lookup_erase, same] using
        records.untouched other unrecorded unmodified kept

/-- The removal of an older object: its starting value is among the removed ones
and no longer among the modified ones. -/
theorem remove_old (records : Records state before after) {id : Nat} {start : V}
    (value : before[id]? = some start) :
    Records { state with
        removedValues := state.removedValues.insert id start
        oldValues := state.oldValues.erase id } before (after.erase id) where
  numbered := records.numbered
  created other recorded := by
    have entry := records.created other recorded
    have different : id ≠ other := by
      rintro rfl
      simp [value] at entry
    exact ⟨entry.1, by simp [different, entry.2]⟩
  modified other earlier entry := by
    have both : id ≠ other ∧ state.oldValues[other]? = some earlier := by
      simpa [lookup_erase] using entry
    have known := records.modified other earlier both.2
    exact ⟨known.1, by simp [both.1, known.2]⟩
  removed other earlier entry := by
    by_cases same : id = other
    · subst same
      have starting : start = earlier := by simpa using entry
      subst starting
      exact ⟨value, by simp⟩
    · have known := records.removed other earlier
        (by simpa [lookup_insert, same] using entry)
      exact ⟨known.1, by simp [known.2]⟩
  untouched other outside unmodified kept := by
    have different : id ≠ other := by
      rintro rfl
      simp at kept
    have unmodifiedOther : state.oldValues[other]? = none := by
      simpa [lookup_erase, different] using unmodified
    have keptOther : state.removedValues[other]? = none := by
      simpa [lookup_insert, different] using kept
    simpa [lookup_erase, different] using
      records.untouched other outside unmodifiedOther keptOther

end Records

section Keys

variable [DecidableEq K] {keys : List (V → K)}

theorem shareKey_iff {left right : V} :
    shareKey keys left right = true ↔ ∃ key ∈ keys, key left = key right := by
  simp [shareKey]

theorem shareKey_comm (left right : V) :
    shareKey keys left right = shareKey keys right left := by
  rw [Bool.eq_iff_iff, shareKey_iff, shareKey_iff]
  simp only [eq_comm]

/-- The container's check finds exactly another element with a common key. -/
theorem collides_iff {objects : Objects V} {id : Nat} {value : V} :
    collides keys objects id value = true ↔
      ∃ (other : Nat) (held : V), objects[other]? = some held ∧ other ≠ id ∧
        shareKey keys held value = true := by
  simp only [collides, List.any_eq_true, Prod.exists, Bool.and_eq_true, decide_eq_true_eq,
    ExtTreeMap.mem_toList_iff_getElem?_eq_some]

/-- No two objects of the container share a unique key. -/
def UniqueKeys (keys : List (V → K)) (objects : Objects V) : Prop :=
  ∀ (id other : Nat) (value held : V), objects[id]? = some value → objects[other]? = some held →
    shareKey keys value held = true → id = other

instance (objects : Objects V) : Decidable (UniqueKeys keys objects) :=
  decidable_of_iff (∀ item ∈ objects.toList, ∀ other ∈ objects.toList,
      shareKey keys item.2 other.2 = true → item.1 = other.1) <| by
    simp only [Prod.forall, ExtTreeMap.mem_toList_iff_getElem?_eq_some, UniqueKeys]
    constructor
    · intro all id other value held stored storedOther
      exact all id value stored other held storedOther
    · intro unique id value stored other held storedOther
      exact unique id other value held stored storedOther

/-- A value that collides with nothing can be stored. -/
theorem UniqueKeys.insert {objects : Objects V} (unique : UniqueKeys keys objects)
    {id : Nat} {value : V} (free : collides keys objects id value = false) :
    UniqueKeys keys (objects.insert id value) := by
  have apart : ∀ (other : Nat) (held : V), objects[other]? = some held → shareKey keys held value = true →
      other = id := by
    intro other held stored shared
    by_contra different
    have taken : collides keys objects id value = true :=
      collides_iff.mpr ⟨other, held, stored, different, shared⟩
    simp [taken] at free
  intro left right first second storedLeft storedRight shared
  rw [lookup_insert] at storedLeft storedRight
  by_cases leftNew : id = left <;> by_cases rightNew : id = right
  · rw [← leftNew, ← rightNew]
  · rw [if_pos leftNew, Option.some.injEq] at storedLeft
    rw [if_neg rightNew] at storedRight
    subst storedLeft
    rw [shareKey_comm] at shared
    rw [← leftNew, apart right second storedRight shared]
  · rw [if_neg leftNew] at storedLeft
    rw [if_pos rightNew, Option.some.injEq] at storedRight
    subst storedRight
    rw [← rightNew, apart left first storedLeft shared]
  · rw [if_neg leftNew] at storedLeft
    rw [if_neg rightNew] at storedRight
    exact unique left right first second storedLeft storedRight shared

theorem UniqueKeys.erase {objects : Objects V} (unique : UniqueKeys keys objects) (id : Nat) :
    UniqueKeys keys (objects.erase id) := by
  intro left right first second storedLeft storedRight shared
  have inLeft : objects[left]? = some first := by
    rw [lookup_erase] at storedLeft
    split at storedLeft
    · cases storedLeft
    · exact storedLeft
  have inRight : objects[right]? = some second := by
    rw [lookup_erase] at storedRight
    split at storedRight
    · cases storedRight
    · exact storedRight
  exact unique left right first second inLeft inRight shared

/-- What the index keeps of its own objects: unique secondary keys, and
identifiers below the next one. -/
structure WellKept (keys : List (V → K)) (index : GenericIndex V) : Prop where
  unique : UniqueKeys keys index.indices
  below : Below index.indices index.nextId

instance (keys : List (V → K)) (index : GenericIndex V) : Decidable (WellKept keys index) :=
  decidable_of_iff (UniqueKeys keys index.indices ∧ Below index.indices index.nextId)
    ⟨fun both => ⟨both.1, both.2⟩, fun kept => ⟨kept.unique, kept.below⟩⟩

theorem wellKept_empty (keys : List (V → K)) : WellKept keys (GenericIndex.empty : GenericIndex V) where
  unique id other value held stored := by simp [GenericIndex.empty] at stored
  below id member := by simp [GenericIndex.empty] at member

/-- The bookkeeping of a session touches neither the objects nor the next
identifier. -/
theorem WellKept.onHead {index : GenericIndex V} (kept : WellKept keys index)
    (change : UndoState V → UndoState V) : WellKept keys (index.onHead change) := by
  unfold GenericIndex.onHead
  split
  · exact kept
  · exact ⟨kept.unique, kept.below⟩

theorem indices_onHead (index : GenericIndex V) (change : UndoState V → UndoState V) :
    (index.onHead change).indices = index.indices := by
  unfold GenericIndex.onHead
  split <;> rfl

theorem WellKept.emplace {index reached : GenericIndex V} {constructor : Nat → V}
    (kept : WellKept keys index)
    (done : index.emplace keys constructor = .ok () reached) : WellKept keys reached := by
  unfold GenericIndex.emplace emplaceElement at done
  dsimp only at done
  split at done
  · cases done
  · rename_i objects inserted
    split at inserted
    · cases inserted
    · rename_i free
      simp only [Bool.or_eq_true, not_or, Bool.not_eq_true] at free
      cases inserted
      cases done
      refine WellKept.onHead ⟨kept.unique.insert free.2, fun id member => ?_⟩ _
      rcases mem_insert_iff.mp member with same | older
      · exact Nat.lt_succ_of_le (Nat.le_of_eq same.symm)
      · exact Nat.lt_succ_of_lt (kept.below id older)

/-- Writing an object of the container keeps the identifiers managed. -/
theorem Below.insert {objects : Objects V} {next id : Nat} (below : Below objects next)
    (member : id ∈ objects) (value : V) : Below (objects.insert id value) next := by
  intro other present
  rcases mem_insert_iff.mp present with same | older
  · exact same ▸ below id member
  · exact below other older

theorem WellKept.modify {index reached : GenericIndex V} {id : Nat} {modifier : V → V}
    (kept : WellKept keys index)
    (done : index.modify keys id modifier = .ok () reached) : WellKept keys reached := by
  unfold GenericIndex.modify at done
  split at done
  · cases done
  · rename_i value stored
    dsimp only at done
    split at done
    · cases done
    · rename_i free
      have recorded : WellKept keys (index.onModify id value) := kept.onHead _
      have member : id ∈ (index.onModify id value).indices := by
        rw [GenericIndex.onModify, indices_onHead]
        exact mem_iff_lookup.mpr ⟨value, stored⟩
      cases done
      exact ⟨recorded.unique.insert (by simpa using free), recorded.below.insert member _⟩

theorem WellKept.remove {index reached : GenericIndex V} {id : Nat} (kept : WellKept keys index)
    (done : index.remove id = .ok () reached) : WellKept keys reached := by
  unfold GenericIndex.remove at done
  split at done
  · cases done
  · rename_i value stored
    have recorded : WellKept keys (index.onRemove id value) := kept.onHead _
    cases done
    exact ⟨recorded.unique.erase id,
      fun other present => recorded.below other (ExtTreeMap.mem_of_mem_erase present)⟩

/-- The state of a session opened on `base`: its record is on top of the stack of
`base`, and identifiers only grew. -/
structure Session (keys : List (V → K)) (base index : GenericIndex V) : Prop where
  top : ∃ head, index.stack = head :: base.stack ∧ head.oldNextId = base.nextId ∧
    head.revision = base.revision + 1 ∧ Records head base.indices index.indices
  revision : index.revision = base.revision + 1
  start : WellKept keys base
  grown : base.nextId ≤ index.nextId
  kept : WellKept keys index

theorem session_start {base : GenericIndex V} (kept : WellKept keys base) :
    Session keys base base.startUndoSession where
  top := ⟨_, rfl, rfl, rfl, records_start _ _ _⟩
  revision := rfl
  start := kept
  grown := Nat.le_refl _
  kept := ⟨kept.unique, kept.below⟩

theorem Session.emplace {base index reached : GenericIndex V} {constructor : Nat → V}
    (session : Session keys base index)
    (done : index.emplace keys constructor = .ok () reached) : Session keys base reached := by
  obtain ⟨head, onTop, next, numbered, records⟩ := session.top
  have kept := session.kept.emplace done
  unfold GenericIndex.emplace emplaceElement at done
  dsimp only at done
  split at done
  · cases done
  · rename_i objects inserted
    split at inserted
    · cases inserted
    · cases inserted
      simp only [GenericIndex.onCreate, GenericIndex.onHead, onTop,
        EStateM.Result.ok.injEq, true_and] at done
      subst done
      have fresh : base.indices[index.nextId]? = none := by
        rw [lookup_none_iff]
        intro member
        exact absurd (session.start.below _ member) (by have := session.grown; omega)
      have later : head.oldNextId ≤ index.nextId := next ▸ session.grown
      exact ⟨⟨_, rfl, next, numbered, records.create _ fresh later⟩, session.revision,
        session.start, Nat.le_succ_of_le session.grown, kept⟩

theorem Session.modify {base index reached : GenericIndex V} {id : Nat} {modifier : V → V}
    (session : Session keys base index)
    (done : index.modify keys id modifier = .ok () reached) : Session keys base reached := by
  obtain ⟨head, onTop, next, numbered, records⟩ := session.top
  have kept := session.kept.modify done
  unfold GenericIndex.modify at done
  split at done
  · cases done
  · rename_i value stored
    dsimp only at done
    split at done
    · cases done
    · have member : id ∈ index.indices := mem_iff_lookup.mpr ⟨value, stored⟩
      simp only [GenericIndex.onModify, GenericIndex.onHead, onTop,
        EStateM.Result.ok.injEq, true_and] at done
      subst done
      refine ⟨⟨_, rfl, ?_, ?_, ?_⟩, session.revision, session.start, session.grown, kept⟩
      · split
        · exact next
        · split <;> exact next
      · split
        · exact numbered
        · split <;> exact numbered
      · split
        · rename_i new
          exact records.change_known _ member (.inl (by simpa using new))
        · rename_i old
          split
          · rename_i known
            refine records.change_known _ member (.inr ?_)
            rwa [← ExtTreeMap.contains_eq_isSome_getElem?]
          · rename_i unknown
            refine records.change_first _ stored (by simpa using old) ?_
            rw [lookup_none_iff, ← ExtTreeMap.contains_iff_mem]
            exact unknown

theorem Session.remove {base index reached : GenericIndex V} {id : Nat}
    (session : Session keys base index)
    (done : index.remove id = .ok () reached) : Session keys base reached := by
  obtain ⟨head, onTop, next, numbered, records⟩ := session.top
  have kept := session.kept.remove done
  unfold GenericIndex.remove at done
  split at done
  · cases done
  · rename_i value stored
    have member : id ∈ index.indices := mem_iff_lookup.mpr ⟨value, stored⟩
    have present : head.removedValues[id]? = none := records.not_removed member
    simp only [GenericIndex.onRemove, GenericIndex.onHead, onTop,
      EStateM.Result.ok.injEq, true_and] at done
    subst done
    refine ⟨⟨_, rfl, ?_, ?_, ?_⟩, session.revision, session.start, session.grown, kept⟩
    · split
      · exact next
      · split
        · exact next
        · split <;> exact next
    · split
      · exact numbered
      · split
        · exact numbered
        · split <;> exact numbered
    · split
      · rename_i new
        exact records.remove_new (by simpa using new)
      · rename_i old
        have outside : id ∉ head.newIds := by simpa using old
        split
        · rename_i recorded entry
          rw [insertIfNew_fresh present]
          exact records.remove_old (records.modified id recorded entry).1
        · rename_i unmodified
          have starting := records.value_untouched stored outside unmodified
          have unknown : ¬ head.removedValues.contains id = true := by
            rw [ExtTreeMap.contains_iff_mem]
            exact lookup_none_iff.mp present
          rw [if_neg unknown]
          simpa only [erase_fresh unmodified] using records.remove_old starting

/-- A session stays one through every successful sequence of calls. -/
theorem Session.calls {base index reached : GenericIndex V} {calls : List (Call V)}
    (session : Session keys base index)
    (done : applyCalls keys calls index = .ok () reached) : Session keys base reached := by
  induction calls generalizing index with
  | nil =>
    simp only [applyCalls, EStateM.Result.ok.injEq, true_and] at done
    exact done ▸ session
  | cons call rest inductionHypothesis =>
    unfold applyCalls at done
    split at done
    · cases done
    · rename_i middle applied
      refine inductionHypothesis ?_ done
      cases call with
      | emplace constructor => exact session.emplace applied
      | modify id modifier => exact session.modify applied
      | remove id => exact session.remove applied

end Keys

end DeipChain.Chainbase
