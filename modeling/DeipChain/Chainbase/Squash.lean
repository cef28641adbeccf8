import DeipChain.Chainbase.Replay

/-!
# Merging two undo states

`squash` folds the record of a nested session into the record below it. Each
entry of the nested record changes the lower one as the corresponding call would
have done in the outer session, so the merged record relates the start of the
outer session to the end of the nested one. The contents of the index are not
touched.

With nothing below, the lone record is dropped and the function returns before the
revision is decremented. That is the only case in which a nested session leaves a
different revision behind than it found.
-/
namespace DeipChain.Chainbase

open Std OrderedMap

variable {V K : Type}

/-- The objects with the listed identifiers taken from another set of objects. -/
def copyFrom (source : Objects V) : List Nat → Objects V → Objects V
  | [], objects => objects
  | id :: rest, objects =>
    match source[id]? with
    | some value => copyFrom source rest (objects.insert id value)
    | none => copyFrom source rest (objects.erase id)

theorem lookup_copyFrom (source : Objects V) (ids : List Nat) (objects : Objects V) (id : Nat) :
    (copyFrom source ids objects)[id]? = if id ∈ ids then source[id]? else objects[id]? := by
  induction ids generalizing objects with
  | nil => simp [copyFrom]
  | cons first rest inductionHypothesis =>
    by_cases inRest : id ∈ rest
    · cases taken : source[first]? <;> simp [copyFrom, taken, inductionHypothesis, inRest]
    · by_cases same : first = id
      · subst same
        cases taken : source[first]? <;>
          simp [copyFrom, taken, inductionHypothesis, inRest]
      · cases taken : source[first]? <;>
          simp [copyFrom, taken, inductionHypothesis, inRest, lookup_insert, lookup_erase, same,
            Ne.symm same]

namespace GenericIndex

variable {previous : UndoState V} {start objects after : Objects V}

/-- A modification of the nested session acts as one of the outer session. -/
theorem records_mergeOld {entries : List (Nat × V)}
    (distinct : entries.Pairwise (fun left right => left.1 ≠ right.1))
    (current : ∀ entry ∈ entries, objects[entry.1]? = some entry.2 ∧ entry.1 ∈ after)
    (records : Records previous start objects) :
    Records (mergeOld entries previous) start (copyFrom after (entries.map Prod.fst) objects) := by
  induction entries generalizing previous objects with
  | nil => exact records
  | cons first rest inductionHypothesis =>
    obtain ⟨id, value⟩ := first
    obtain ⟨apart, distinctRest⟩ := List.pairwise_cons.mp distinct
    obtain ⟨stored, present⟩ := current (id, value) List.mem_cons_self
    obtain ⟨held, taken⟩ := mem_iff_lookup.mp present
    have member : id ∈ objects := mem_iff_lookup.mpr ⟨value, stored⟩
    have currentRest : ∀ entry ∈ rest,
        (objects.insert id held)[entry.1]? = some entry.2 ∧ entry.1 ∈ after := by
      intro entry inRest
      obtain ⟨storedEntry, presentEntry⟩ := current entry (List.mem_cons_of_mem _ inRest)
      refine ⟨?_, presentEntry⟩
      rw [lookup_insert, if_neg (apart entry inRest), storedEntry]
    simp only [List.map_cons, copyFrom, taken]
    unfold mergeOld
    split
    · rename_i new
      exact inductionHypothesis distinctRest currentRest
        (records.change_known held member (.inl (by simpa using new)))
    · rename_i old
      split
      · rename_i known
        refine inductionHypothesis distinctRest currentRest
          (records.change_known held member (.inr ?_))
        rwa [← ExtTreeMap.contains_eq_isSome_getElem?]
      · rename_i unknown
        refine inductionHypothesis distinctRest currentRest
          (records.change_first held stored (by simpa using old) ?_)
        rw [lookup_none_iff, ← ExtTreeMap.contains_iff_mem]
        exact unknown

/-- A creation of the nested session acts as one of the outer session. -/
theorem records_mergeNew {ids : List Nat}
    (fresh : ∀ id ∈ ids, start[id]? = none ∧ id ∈ after ∧ previous.oldNextId ≤ id)
    (records : Records previous start objects) :
    Records (mergeNew ids previous) start (copyFrom after ids objects) := by
  induction ids generalizing previous objects with
  | nil => exact records
  | cons first rest inductionHypothesis =>
    obtain ⟨absent, present, later⟩ := fresh first List.mem_cons_self
    obtain ⟨held, taken⟩ := mem_iff_lookup.mp present
    simp only [copyFrom, taken, mergeNew]
    exact inductionHypothesis (fun id member => fresh id (List.mem_cons_of_mem _ member))
      (records.create held absent later)

/-- A removal of the nested session acts as one of the outer session. -/
theorem records_mergeRemoved {entries : List (Nat × V)}
    (distinct : entries.Pairwise (fun left right => left.1 ≠ right.1))
    (current : ∀ entry ∈ entries, objects[entry.1]? = some entry.2 ∧ entry.1 ∉ after)
    (records : Records previous start objects) :
    Records (mergeRemoved entries previous) start
      (copyFrom after (entries.map Prod.fst) objects) := by
  induction entries generalizing previous objects with
  | nil => exact records
  | cons first rest inductionHypothesis =>
    obtain ⟨id, value⟩ := first
    obtain ⟨apart, distinctRest⟩ := List.pairwise_cons.mp distinct
    obtain ⟨stored, gone⟩ := current (id, value) List.mem_cons_self
    have member : id ∈ objects := mem_iff_lookup.mpr ⟨value, stored⟩
    have kept : previous.removedValues[id]? = none := records.not_removed member
    have currentRest : ∀ entry ∈ rest,
        (objects.erase id)[entry.1]? = some entry.2 ∧ entry.1 ∉ after := by
      intro entry inRest
      obtain ⟨storedEntry, goneEntry⟩ := current entry (List.mem_cons_of_mem _ inRest)
      refine ⟨?_, goneEntry⟩
      rw [lookup_erase, if_neg (apart entry inRest), storedEntry]
    simp only [List.map_cons, copyFrom, lookup_none_iff.mpr gone]
    unfold mergeRemoved
    split
    · rename_i new
      exact inductionHypothesis distinctRest currentRest
        (records.remove_new (by simpa using new))
    · rename_i old
      split
      · rename_i recorded entry
        rw [insertIfNew_fresh kept]
        exact inductionHypothesis distinctRest currentRest
          (records.remove_old (records.modified id recorded entry).1)
      · rename_i unmodified
        have starting := records.value_untouched stored (by simpa using old) unmodified
        have removed := records.remove_old starting
        rw [erase_fresh unmodified] at removed
        rw [insertIfNew_fresh kept]
        exact inductionHypothesis distinctRest currentRest removed

/-- The loops of the merge keep the next identifier and the revision of the lower
record. -/
theorem mergeOld_frame (entries : List (Nat × V)) (previous : UndoState V) :
    (mergeOld entries previous).oldNextId = previous.oldNextId ∧
      (mergeOld entries previous).revision = previous.revision := by
  induction entries generalizing previous with
  | nil => exact ⟨rfl, rfl⟩
  | cons first rest inductionHypothesis =>
    unfold mergeOld
    split
    · exact inductionHypothesis previous
    · split <;> exact inductionHypothesis _

theorem mergeNew_frame (ids : List Nat) (previous : UndoState V) :
    (mergeNew ids previous).oldNextId = previous.oldNextId ∧
      (mergeNew ids previous).revision = previous.revision := by
  induction ids generalizing previous with
  | nil => exact ⟨rfl, rfl⟩
  | cons first rest inductionHypothesis => exact inductionHypothesis _

theorem mergeRemoved_frame (entries : List (Nat × V)) (previous : UndoState V) :
    (mergeRemoved entries previous).oldNextId = previous.oldNextId ∧
      (mergeRemoved entries previous).revision = previous.revision := by
  induction entries generalizing previous with
  | nil => exact ⟨rfl, rfl⟩
  | cons first rest inductionHypothesis =>
    unfold mergeRemoved
    split
    · exact inductionHypothesis _
    · split <;> exact inductionHypothesis _

theorem mergeStates_frame (state previous : UndoState V) :
    (mergeStates state previous).oldNextId = previous.oldNextId ∧
      (mergeStates state previous).revision = previous.revision := by
  obtain ⟨next, revision⟩ := mergeRemoved_frame state.removedValues.toList
    (mergeNew state.newIds.toList (mergeOld state.oldValues.toList previous))
  obtain ⟨nextNew, revisionNew⟩ := mergeNew_frame state.newIds.toList
    (mergeOld state.oldValues.toList previous)
  obtain ⟨nextOld, revisionOld⟩ := mergeOld_frame state.oldValues.toList previous
  exact ⟨next.trans (nextNew.trans nextOld), revision.trans (revisionNew.trans revisionOld)⟩

/-- Two records of successive sessions merge into the record of both. -/
theorem records_mergeStates {state : UndoState V} {middle : Objects V}
    (outer : Records previous start middle) (nested : Records state middle after)
    (fresh : ∀ id ∈ state.newIds, start[id]? = none ∧ previous.oldNextId ≤ id) :
    Records (mergeStates state previous) start after := by
  have modified := @records_mergeOld V previous start middle after _
    (toList_distinct state.oldValues)
    (fun entry member => nested.modified entry.1 entry.2
      (ExtTreeMap.mem_toList_iff_getElem?_eq_some.mp member)) outer
  have created := @records_mergeNew V _ start _ after state.newIds.toList
    (fun id member => by
      obtain ⟨absent, later⟩ := fresh id (ExtTreeSet.mem_toList.mp member)
      refine ⟨absent, (nested.created id (ExtTreeSet.mem_toList.mp member)).2, ?_⟩
      rwa [(mergeOld_frame _ _).1]) modified
  have merged := @records_mergeRemoved V _ start _ after _ (toList_distinct state.removedValues)
    (fun entry member => by
      obtain ⟨stored, gone⟩ := nested.removed entry.1 entry.2
        (ExtTreeMap.mem_toList_iff_getElem?_eq_some.mp member)
      refine ⟨?_, gone⟩
      rw [lookup_copyFrom, if_neg, lookup_copyFrom, if_neg, stored]
      · intro listed
        obtain ⟨item, inside, same⟩ := List.mem_map.mp listed
        have there := (nested.modified item.1 item.2
          (ExtTreeMap.mem_toList_iff_getElem?_eq_some.mp inside)).2
        exact gone (same ▸ there)
      · intro listed
        exact gone (nested.created entry.1 (ExtTreeSet.mem_toList.mp listed)).2) created
  have reached : copyFrom after (state.removedValues.toList.map Prod.fst)
      (copyFrom after state.newIds.toList
        (copyFrom after (state.oldValues.toList.map Prod.fst) middle)) = after := by
    apply ExtTreeMap.ext_getElem?
    intro id
    rw [lookup_copyFrom, lookup_copyFrom, lookup_copyFrom]
    split
    · rfl
    · rename_i kept
      split
      · rfl
      · rename_i old
        split
        · rfl
        · rename_i unmodified
          symm
          have absent : ∀ map : ExtTreeMap Nat V, id ∉ map.toList.map Prod.fst → map[id]? = none := by
            intro map unlisted
            cases entry : map[id]? with
            | none => rfl
            | some value =>
              refine absurd ?_ unlisted
              exact List.mem_map.mpr
                ⟨(id, value), ExtTreeMap.mem_toList_iff_getElem?_eq_some.mpr entry, rfl⟩
          exact nested.untouched id (fun new => old (ExtTreeSet.mem_toList.mpr new))
            (absent _ unmodified) (absent _ kept)
  rw [reached] at merged
  exact merged

/-- Squash leaves the objects alone. -/
theorem indices_squash (index : GenericIndex V) : index.squash.indices = index.indices := by
  unfold squash
  split <;> rfl

theorem nextId_squash (index : GenericIndex V) : index.squash.nextId = index.nextId := by
  unfold squash
  split <;> rfl

end GenericIndex

variable [DecidableEq K] {keys : List (V → K)}

/-- A session nested in another is, after squash, the outer session carried on. -/
theorem Session.squash {base below reached : GenericIndex V} (outer : Session keys base below)
    (nested : Session keys below reached) : Session keys base reached.squash := by
  obtain ⟨previous, outerTop, outerNext, outerRevision, outerRecords⟩ := outer.top
  obtain ⟨state, nestedTop, nestedNext, nestedRevision, nestedRecords⟩ := nested.top
  rw [outerTop] at nestedTop
  have fresh : ∀ id ∈ state.newIds, base.indices[id]? = none ∧ previous.oldNextId ≤ id := by
    intro id new
    have later : below.nextId ≤ id := nestedNext ▸ nestedRecords.numbered id new
    have grown := outer.grown
    refine ⟨lookup_none_iff.mpr (fun member => ?_), by omega⟩
    have small := outer.start.below id member
    omega
  have merged := GenericIndex.records_mergeStates outerRecords nestedRecords fresh
  obtain ⟨next, revision⟩ := GenericIndex.mergeStates_frame state previous
  refine ⟨⟨GenericIndex.mergeStates state previous, ?_, next.trans outerNext,
    revision.trans outerRevision, ?_⟩, ?_, outer.start, ?_, ?_⟩
  · simp only [GenericIndex.squash, nestedTop]
  · rw [GenericIndex.indices_squash]
    exact merged
  · have first := outer.revision
    have second := nested.revision
    simp only [GenericIndex.squash, nestedTop]
    omega
  · rw [GenericIndex.nextId_squash]
    exact Nat.le_trans outer.grown nested.grown
  · refine ⟨?_, ?_⟩
    · rw [GenericIndex.indices_squash]
      exact nested.kept.unique
    · rw [GenericIndex.indices_squash, GenericIndex.nextId_squash]
      exact nested.kept.below

/-- `undo` twice, the second one only after the first has returned. -/
def undoTwice (keys : List (V → K)) (index : GenericIndex V) : Outcome V :=
  match index.undo keys with
  | .error thrown reached => .error thrown reached
  | .ok _ reached => reached.undo keys

/-- The law of a session opened on `below` that has come to `reached`: squash
leaves the objects alone and takes the revision back to where the session found
it, and when `below` is itself inside a session opened on `base`, squash and undo
give what two undos give. The nested undos must be restorable, as must be the one
of both sessions together. -/
def SquashLaw (keys : List (V → K)) (below reached : GenericIndex V) : Prop :=
  reached.squash.indices = reached.indices ∧
  reached.squash.revision = below.revision ∧
  ∀ (base : GenericIndex V) (calls : List (Call V)), WellKept keys base →
    applyCalls keys calls base.startUndoSession = .ok () below →
    Restorable keys base.indices below.indices →
    Restorable keys below.indices reached.indices →
    Restorable keys base.indices reached.indices →
    reached.squash.undo keys = .ok () base ∧ undoTwice keys reached = .ok () base

/-- Squash meets its law exactly when there is a session below the squashed one. -/
theorem squash_law_iff (keys : List (V → K)) (below reached : GenericIndex V)
    (calls : List (Call V)) (kept : WellKept keys below)
    (ran : applyCalls keys calls below.startUndoSession = .ok () reached) :
    SquashLaw keys below reached ↔ below.stack ≠ [] := by
  have nested : Session keys below reached := (session_start kept).calls ran
  obtain ⟨state, top, -⟩ := nested.top
  constructor
  · rintro ⟨-, revision, -⟩ nothing
    rw [nothing] at top
    have found := nested.revision
    simp only [GenericIndex.squash, top] at revision
    omega
  · intro something
    refine ⟨GenericIndex.indices_squash reached, ?_, ?_⟩
    · obtain ⟨previous, rest, split⟩ := List.exists_cons_of_ne_nil something
      rw [split] at top
      have found := nested.revision
      simp only [GenericIndex.squash, top]
      omega
    · intro base outerCalls keptBase ranOuter freeOuter freeNested freeBoth
      have outer : Session keys base below := (session_start keptBase).calls ranOuter
      have both := outer.squash nested
      refine ⟨both.undo_iff.mpr (by rw [GenericIndex.indices_squash]; exact freeBoth), ?_⟩
      rw [undoTwice, nested.undo_iff.mpr freeNested]
      exact outer.undo_iff.mpr freeOuter

/-- Opening and squashing a session on an index without one leaves the revision
one too high. -/
theorem squash_lone_session_fails :
    WellKept [id] twoObjects ∧
      applyCalls [id] renameCalls twoObjects.startUndoSession = .ok () renamedObjects ∧
      ¬ SquashLaw [id] twoObjects renamedObjects := by
  refine ⟨by decide, by decide, ?_⟩
  rintro ⟨-, revision, -⟩
  exact absurd revision (by decide)

/-- The same session nested in another one. -/
def nestedObjects : GenericIndex Nat :=
  { stack := [{ oldValues := (∅ : Objects Nat).insert 0 10, removedValues := ∅,
                newIds := ∅, oldNextId := 2, revision := 2 },
              { oldValues := ∅, removedValues := ∅, newIds := ∅, oldNextId := 2, revision := 1 }]
    revision := 2, nextId := 2
    indices := ((∅ : Objects Nat).insert 0 30).insert 1 20 }

theorem squash_nested_session :
    SquashLaw [id] twoObjects.startUndoSession nestedObjects :=
  (squash_law_iff [id] twoObjects.startUndoSession nestedObjects renameCalls
    (by decide) (by decide)).mpr (by decide)

end DeipChain.Chainbase
