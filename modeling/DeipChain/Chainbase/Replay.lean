import DeipChain.Chainbase.Undo

/-!
# Replaying an undo state

`undo` walks three containers. The first walk can be stopped by a collision, and
the splits of its list at each entry describe exactly when it is. The other two
cannot fail in a session over unique keys: what is erased was created, and what is
put back belongs to the objects of the start of the session.
-/
namespace DeipChain.Chainbase

open Std OrderedMap

variable {V K : Type}

/-- The objects with a list of entries written over them, in order. -/
def overwrite : List (Nat × V) → Objects V → Objects V
  | [], objects => objects
  | (id, value) :: rest, objects => overwrite rest (objects.insert id value)

theorem lookup_overwrite_outside {entries : List (Nat × V)} {objects : Objects V} {id : Nat}
    (outside : ∀ entry ∈ entries, entry.1 ≠ id) :
    (overwrite entries objects)[id]? = objects[id]? := by
  induction entries generalizing objects with
  | nil => rfl
  | cons first rest inductionHypothesis =>
    have tail := @inductionHypothesis (objects.insert first.1 first.2)
      (fun entry member => outside entry (List.mem_cons_of_mem _ member))
    rw [overwrite, tail, lookup_insert, if_neg (outside first List.mem_cons_self)]

theorem lookup_overwrite_mem {entries : List (Nat × V)} {objects : Objects V} {id : Nat}
    {value : V} (distinct : entries.Pairwise (fun left right => left.1 ≠ right.1))
    (member : (id, value) ∈ entries) : (overwrite entries objects)[id]? = some value := by
  induction entries generalizing objects with
  | nil => cases member
  | cons first rest inductionHypothesis =>
    obtain ⟨apart, distinctRest⟩ := List.pairwise_cons.mp distinct
    rcases List.mem_cons.mp member with rfl | inRest
    · rw [overwrite, lookup_overwrite_outside (fun entry inside => (apart entry inside).symm),
        lookup_insert, if_pos rfl]
    · exact inductionHypothesis distinctRest inRest

theorem mem_overwrite {entries : List (Nat × V)} {objects : Objects V} {id : Nat}
    (present : id ∈ objects) : id ∈ overwrite entries objects := by
  induction entries generalizing objects with
  | nil => exact present
  | cons first rest inductionHypothesis =>
    exact inductionHypothesis (mem_insert_iff.mpr (.inr present))

/-- The entries of a map come by ascending identifier. -/
theorem toList_ascending (map : ExtTreeMap Nat V) :
    map.toList.Pairwise (fun left right => left.1 < right.1) :=
  ExtTreeMap.ordered_keys_toList.imp (fun ordered => Nat.compare_eq_lt.mp ordered)

theorem toList_distinct (map : ExtTreeMap Nat V) :
    map.toList.Pairwise (fun left right => left.1 ≠ right.1) :=
  (toList_ascending map).imp Nat.ne_of_lt

/-- A map written over the objects: its own entries, and the objects elsewhere. -/
theorem lookup_overwrite_toList (map : ExtTreeMap Nat V) (objects : Objects V) (id : Nat) :
    (overwrite map.toList objects)[id]? = (map[id]?).or objects[id]? := by
  cases entry : map[id]? with
  | some value =>
    have member := ExtTreeMap.mem_toList_iff_getElem?_eq_some.mpr entry
    rw [lookup_overwrite_mem (toList_distinct map) member, Option.some_or]
  | none =>
    rw [Option.none_or]
    refine lookup_overwrite_outside (fun item member same => ?_)
    rw [ExtTreeMap.mem_toList_iff_getElem?_eq_some, same, entry] at member
    cases member

namespace GenericIndex

theorem lookup_eraseNew (ids : List Nat) (objects : Objects V) (id : Nat) :
    (eraseNew ids objects)[id]? = if id ∈ ids then none else objects[id]? := by
  induction ids generalizing objects with
  | nil => simp [eraseNew]
  | cons first rest inductionHypothesis =>
    rw [eraseNew, inductionHypothesis, lookup_erase]
    by_cases inRest : id ∈ rest
    · simp [inRest]
    · by_cases same : first = id
      · simp [same]
      · simp [inRest, same, Ne.symm same]

variable [DecidableEq K] {keys : List (V → K)}

/-- The first loop returns exactly when no entry collides at the moment it is
written, and then it has written all of them. -/
theorem restoreOld_ok_iff {entries : List (Nat × V)} {objects restored : Objects V} :
    restoreOld keys entries objects = .ok () restored ↔
      restored = overwrite entries objects ∧
      ∀ before id value after, entries = before ++ (id, value) :: after →
        id ∈ overwrite before objects ∧
          collides keys (overwrite before objects) id value = false := by
  induction entries generalizing objects with
  | nil =>
    constructor
    · intro done
      cases done
      exact ⟨rfl, fun before id value after equal => by simp at equal⟩
    · rintro ⟨rfl, -⟩
      rfl
  | cons first rest inductionHypothesis =>
    obtain ⟨id, value⟩ := first
    unfold restoreOld
    constructor
    · intro done
      split at done
      · cases done
      · rename_i present
        split at done
        · cases done
        · rename_i free
          obtain ⟨result, splits⟩ := inductionHypothesis.mp done
          refine ⟨result, fun before other held after equal => ?_⟩
          cases before with
          | nil =>
            simp only [List.nil_append, List.cons.injEq, Prod.mk.injEq] at equal
            obtain ⟨⟨rfl, rfl⟩, -⟩ := equal
            exact ⟨by simpa [overwrite] using present, by simpa [overwrite] using free⟩
          | cons head tail =>
            simp only [List.cons_append, List.cons.injEq] at equal
            obtain ⟨rfl, split⟩ := equal
            exact splits tail other held after split
    · rintro ⟨result, splits⟩
      obtain ⟨present, free⟩ := splits [] id value rest rfl
      have contained : objects.contains id = true := by simpa [overwrite] using present
      have unblocked : ¬ collides keys objects id value = true := by simpa [overwrite] using free
      rw [if_neg (by simp [contained]), if_neg unblocked]
      refine inductionHypothesis.mpr ⟨result, fun before other held after equal => ?_⟩
      exact splits ((id, value) :: before) other held after (by rw [equal, List.cons_append])

/-- The third loop puts back what belongs to one set of objects with unique keys. -/
theorem restoreRemoved_ok {whole : Objects V} (unique : UniqueKeys keys whole)
    {entries : List (Nat × V)} {objects : Objects V}
    (distinct : entries.Pairwise (fun left right => left.1 ≠ right.1))
    (belongs : ∀ entry ∈ entries, whole[entry.1]? = some entry.2 ∧ objects[entry.1]? = none)
    (contained : ∀ (id : Nat) value, objects[id]? = some value → whole[id]? = some value) :
    restoreRemoved keys entries objects = .ok () (overwrite entries objects) := by
  induction entries generalizing objects with
  | nil => rfl
  | cons first rest inductionHypothesis =>
    obtain ⟨id, value⟩ := first
    obtain ⟨apart, distinctRest⟩ := List.pairwise_cons.mp distinct
    obtain ⟨original, absent⟩ := belongs (id, value) List.mem_cons_self
    have free : collides keys objects id value = false := by
      rw [Bool.eq_false_iff]
      intro taken
      obtain ⟨other, held, stored, different, shared⟩ := collides_iff.mp taken
      exact different (unique other id held value (contained other held stored) original shared)
    have fresh : objects.contains id = false := by
      rw [Bool.eq_false_iff, ne_eq, ExtTreeMap.contains_iff_mem]
      exact lookup_none_iff.mp absent
    have emplaced : emplaceElement keys objects id value = some (objects.insert id value) := by
      simp [emplaceElement, free, fresh]
    rw [restoreRemoved, emplaced, overwrite]
    refine inductionHypothesis distinctRest (fun entry member => ?_) (fun other held stored => ?_)
    · obtain ⟨originalEntry, absentEntry⟩ := belongs entry (List.mem_cons_of_mem _ member)
      refine ⟨originalEntry, ?_⟩
      rw [lookup_insert, if_neg (apart entry member), absentEntry]
    · rw [lookup_insert] at stored
      split at stored
      · rename_i same
        rw [← same, ← stored]
        exact original
      · exact contained other held stored

end GenericIndex

variable [DecidableEq K] {keys : List (V → K)}

/-- No starting value of an object that is still there meets its key, at the end
of the session, in an object that was created in it or that has a larger
identifier. These are the objects that still have their last value when the
starting value is written back. -/
def Restorable (keys : List (V → K)) (before after : Objects V) : Prop :=
  ∀ (id : Nat) value, before[id]? = some value → id ∈ after →
    ∀ (other : Nat) held, after[other]? = some held → (before[other]? = none ∨ id < other) →
      shareKey keys value held = false

instance (before after : Objects V) : Decidable (Restorable keys before after) :=
  decidable_of_iff (∀ item ∈ before.toList, after.contains item.1 = true →
      ∀ other ∈ after.toList, (before[other.1]? = none ∨ item.1 < other.1) →
        shareKey keys item.2 other.2 = false) <| by
    simp only [Prod.forall, ExtTreeMap.mem_toList_iff_getElem?_eq_some,
      ExtTreeMap.contains_iff_mem, Restorable]

/-- In a list of ascending identifiers an entry stands before another exactly
when its identifier is smaller. -/
theorem mem_before_iff {entries before after : List (Nat × V)} {id : Nat} {value : V}
    (ascending : entries.Pairwise (fun left right => left.1 < right.1))
    (split : entries = before ++ (id, value) :: after) (entry : Nat × V) :
    entry ∈ before ↔ entry ∈ entries ∧ entry.1 < id := by
  subst split
  obtain ⟨-, later, earlier⟩ := List.pairwise_append.mp ascending
  obtain ⟨above, -⟩ := List.pairwise_cons.mp later
  constructor
  · intro member
    exact ⟨List.mem_append_left _ member, earlier entry member (id, value) List.mem_cons_self⟩
  · rintro ⟨member, smaller⟩
    rcases List.mem_append.mp member with inside | outside
    · exact inside
    · rcases List.mem_cons.mp outside with rfl | behind
      · exact absurd smaller (Nat.lt_irrefl _)
      · exact absurd smaller (Nat.lt_asymm (above entry behind))

namespace Records

variable {state : UndoState V} {before after : Objects V}

/-- The three walks together give the starting objects back. -/
theorem replayed (records : Records state before after) :
    overwrite state.removedValues.toList
      (GenericIndex.eraseNew state.newIds.toList
        (overwrite state.oldValues.toList after)) = before := by
  apply ExtTreeMap.ext_getElem?
  intro id
  rw [lookup_overwrite_toList, GenericIndex.lookup_eraseNew, lookup_overwrite_toList]
  simp only [ExtTreeSet.mem_toList]
  cases kept : state.removedValues[id]? with
  | some value => rw [Option.some_or, (records.removed id value kept).1]
  | none =>
    rw [Option.none_or]
    by_cases new : id ∈ state.newIds
    · rw [if_pos new, (records.created id new).1]
    · rw [if_neg new]
      cases entry : state.oldValues[id]? with
      | some value => rw [Option.some_or, (records.modified id value entry).1]
      | none => rw [Option.none_or, records.untouched id new entry kept]

/-- An object of the start without a recorded change has its value still. -/
theorem still (records : Records state before after) {id : Nat} {value : V}
    (start : before[id]? = some value) (present : id ∈ after)
    (unmodified : state.oldValues[id]? = none) : after[id]? = some value := by
  have old : id ∉ state.newIds := by
    intro new
    rw [(records.created id new).1] at start
    cases start
  rw [records.untouched id old unmodified (records.not_removed present), start]

/-- The first walk meets no collision exactly for a restorable end of session. -/
theorem unblocked_iff (records : Records state before after)
    (uniqueBefore : UniqueKeys keys before) (uniqueAfter : UniqueKeys keys after) :
    (∀ earlier id value later, state.oldValues.toList = earlier ++ (id, value) :: later →
      id ∈ overwrite earlier after ∧
        collides keys (overwrite earlier after) id value = false) ↔
      Restorable keys before after := by
  have ascending := toList_ascending state.oldValues
  constructor
  · intro splits id value start present other held stored position
    rw [Bool.eq_false_iff]
    intro shared
    have different : other ≠ id := by
      rintro rfl
      rcases position with absent | smaller
      · rw [absent] at start
        cases start
      · exact Nat.lt_irrefl _ smaller
    cases entry : state.oldValues[id]? with
    | none =>
      have current := records.still start present entry
      exact different (uniqueAfter id other value held current stored shared).symm
    | some recorded =>
      have same : recorded = value := by
        have starting := (records.modified id recorded entry).1
        rw [start] at starting
        exact (Option.some.inj starting).symm
      subst same
      obtain ⟨earlier, later, split⟩ := List.append_of_mem
        (ExtTreeMap.mem_toList_iff_getElem?_eq_some.mpr entry)
      have free := (splits earlier id recorded later split).2
      have outside : ∀ item ∈ earlier, item.1 ≠ other := by
        intro item member equal
        obtain ⟨listed, smaller⟩ := (mem_before_iff ascending split item).mp member
        rcases position with absent | above
        · have starting := (records.modified item.1 item.2
            (ExtTreeMap.mem_toList_iff_getElem?_eq_some.mp listed)).1
          rw [equal, absent] at starting
          cases starting
        · omega
      have taken : collides keys (overwrite earlier after) id recorded = true := by
        refine collides_iff.mpr ⟨other, held, ?_, different, ?_⟩
        · rw [lookup_overwrite_outside outside, stored]
        · rw [shareKey_comm, shared]
      rw [free] at taken
      cases taken
  · intro restorable earlier id value later split
    have listed : (id, value) ∈ state.oldValues.toList := by simp [split]
    obtain ⟨start, present⟩ := records.modified id value
      (ExtTreeMap.mem_toList_iff_getElem?_eq_some.mp listed)
    refine ⟨mem_overwrite present, ?_⟩
    rw [Bool.eq_false_iff]
    intro taken
    obtain ⟨other, held, stored, different, shared⟩ := collides_iff.mp taken
    rw [shareKey_comm] at shared
    by_cases written : ∃ item ∈ earlier, item.1 = other
    · -- a restored object has its starting value, and those do not share a key
      obtain ⟨⟨_, recorded⟩, member, rfl⟩ := written
      have distinct : earlier.Pairwise (fun left right => left.1 ≠ right.1) := by
        have all := toList_distinct state.oldValues
        rw [split] at all
        exact (List.pairwise_append.mp all).1
      rw [lookup_overwrite_mem distinct member] at stored
      have equal : recorded = held := Option.some.inj stored
      have listedOther := ((mem_before_iff ascending split _).mp member).1
      have starting := (records.modified _ recorded
        (ExtTreeMap.mem_toList_iff_getElem?_eq_some.mp listedOther)).1
      exact different (uniqueBefore id _ value recorded start starting (equal ▸ shared)).symm
    · have outside : ∀ item ∈ earlier, item.1 ≠ other := by
        intro item member equal
        exact written ⟨item, member, equal⟩
      rw [lookup_overwrite_outside outside] at stored
      have presentOther : other ∈ after := mem_iff_lookup.mpr ⟨held, stored⟩
      cases startOther : before[other]? with
      | none =>
        have free := restorable id value start present other held stored (.inl startOther)
        rw [free] at shared
        cases shared
      | some original =>
        rcases Nat.lt_or_ge id other with above | below
        · have free := restorable id value start present other held stored (.inr above)
          rw [free] at shared
          cases shared
        · have smaller : other < id := by omega
          have unmodified : state.oldValues[other]? = none := by
            cases entry : state.oldValues[other]? with
            | none => rfl
            | some recorded =>
              refine absurd ?_ written
              exact ⟨(other, recorded), (mem_before_iff ascending split _).mpr
                ⟨ExtTreeMap.mem_toList_iff_getElem?_eq_some.mpr entry, smaller⟩, rfl⟩
          have current := records.still startOther presentOther unmodified
          rw [stored] at current
          have equal : held = original := Option.some.inj current
          exact different
            (uniqueBefore id other value original start startOther (equal ▸ shared)).symm

end Records

/-- In a session undo gives the index of its start back exactly when the end is
restorable. Otherwise the first walk throws. -/
theorem Session.undo_iff {base index : GenericIndex V} (session : Session keys base index) :
    index.undo keys = .ok () base ↔ Restorable keys base.indices index.indices := by
  obtain ⟨head, onTop, next, numbered, records⟩ := session.top
  rw [← records.unblocked_iff session.start.unique session.kept.unique]
  unfold GenericIndex.undo
  rw [onTop]
  dsimp only
  constructor
  · intro done
    split at done
    · cases done
    · rename_i objects walked
      exact (GenericIndex.restoreOld_ok_iff.mp walked).2
  · intro splits
    rw [GenericIndex.restoreOld_ok_iff.mpr ⟨rfl, splits⟩]
    dsimp only
    have back : GenericIndex.restoreRemoved keys head.removedValues.toList
        (GenericIndex.eraseNew head.newIds.toList
          (overwrite head.oldValues.toList index.indices)) = .ok () base.indices := by
      rw [GenericIndex.restoreRemoved_ok session.start.unique (toList_distinct _) ?_ ?_, records.replayed]
      · rintro ⟨id, value⟩ member
        have entry := ExtTreeMap.mem_toList_iff_getElem?_eq_some.mp member
        obtain ⟨start, gone⟩ := records.removed id value entry
        refine ⟨start, ?_⟩
        rw [GenericIndex.lookup_eraseNew, lookup_overwrite_toList]
        split
        · rfl
        · cases old : head.oldValues[id]? with
          | some recorded => exact absurd (records.modified id recorded old).2 gone
          | none => rw [Option.none_or, lookup_none_iff.mpr gone]
      · intro id value stored
        have whole := congrArg (fun objects : Objects V => objects[id]?) records.replayed
        beta_reduce at whole
        rw [lookup_overwrite_toList, stored] at whole
        cases entry : head.removedValues[id]? with
        | none => rw [← whole, entry, Option.none_or]
        | some removed =>
          obtain ⟨start, gone⟩ := records.removed id removed entry
          rw [GenericIndex.lookup_eraseNew, lookup_overwrite_toList] at stored
          split at stored
          · cases stored
          · cases old : head.oldValues[id]? with
            | some recorded => exact absurd (records.modified id recorded old).2 gone
            | none =>
              rw [old, Option.none_or, lookup_none_iff.mpr gone] at stored
              cases stored
    rw [back]
    have revision : index.revision - 1 = base.revision := by
      rw [session.revision]
      omega
    rw [revision, next]

/-- In a session undo gives the index of its start back or throws. -/
theorem Session.eq_of_undo {base index reached : GenericIndex V} (session : Session keys base index)
    (done : index.undo keys = .ok () reached) : reached = base := by
  have restorable : Restorable keys base.indices index.indices := by
    obtain ⟨head, onTop, next, numbered, records⟩ := session.top
    rw [← records.unblocked_iff session.start.unique session.kept.unique]
    unfold GenericIndex.undo at done
    rw [onTop] at done
    dsimp only at done
    split at done
    · cases done
    · rename_i objects walked
      exact (GenericIndex.restoreOld_ok_iff.mp walked).2
  have back := session.undo_iff.mpr restorable
  rw [done] at back
  cases back
  rfl

/-- Undo after any successful sequence of calls in one session: it returns the
index of the start of the session, with its objects, next identifier, undo stack
and revision, exactly when the end is restorable. -/
theorem undo_restores_iff (keys : List (V → K)) (index reached : GenericIndex V)
    (calls : List (Call V)) (kept : WellKept keys index)
    (ran : applyCalls keys calls index.startUndoSession = .ok () reached) :
    reached.undo keys = .ok () index ↔ Restorable keys index.indices reached.indices :=
  ((session_start kept).calls ran).undo_iff

/-- Two objects whose unique key is their own value. -/
def twoObjects : GenericIndex Nat :=
  { stack := [], revision := 0, nextId := 2,
    indices := ((∅ : Objects Nat).insert 0 10).insert 1 20 }

/-- The keys change hands by way of a third value. -/
def swapCalls : List (Call Nat) :=
  [.modify 0 (fun _ => 30), .modify 1 (fun _ => 10), .modify 0 (fun _ => 20)]

/-- The index after the exchange, still inside the session. -/
def swappedObjects : GenericIndex Nat :=
  { stack := [{ oldValues := ((∅ : Objects Nat).insert 0 10).insert 1 20, removedValues := ∅,
                newIds := ∅, oldNextId := 2, revision := 1 }]
    revision := 1, nextId := 2
    indices := ((∅ : Objects Nat).insert 0 20).insert 1 10 }

/-- Two objects exchange their unique keys inside a session, every call succeeds,
and undo throws: the first object's old key is still with the second. -/
theorem undo_swapped_throws :
    WellKept [id] twoObjects ∧
      applyCalls [id] swapCalls twoObjects.startUndoSession = .ok () swappedObjects ∧
      swappedObjects.undo [id] ≠ .ok () twoObjects := by
  decide

/-- A session that gives one object a key nobody held. -/
def renameCalls : List (Call Nat) := [.modify 0 (fun _ => 30)]

/-- The index after the renaming, still inside the session. -/
def renamedObjects : GenericIndex Nat :=
  { stack := [{ oldValues := (∅ : Objects Nat).insert 0 10, removedValues := ∅,
                newIds := ∅, oldNextId := 2, revision := 1 }]
    revision := 1, nextId := 2
    indices := ((∅ : Objects Nat).insert 0 30).insert 1 20 }

/-- The renaming is undone. -/
theorem undo_renamed_restores :
    renamedObjects.undo [id] = .ok () twoObjects :=
  (undo_restores_iff [id] twoObjects renamedObjects renameCalls (by decide) (by decide)).mpr
    (by decide)

end DeipChain.Chainbase
