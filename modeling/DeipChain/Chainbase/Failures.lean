import DeipChain.Chainbase.Squash
import DeipChain.Lib.Snapshots

/-!
# Calls that fail in a session and are caught

An `emplace` that is refused changes nothing. A `modify` whose new value meets a unique
key of another object throws too, but by then the old value is recorded and the container
has erased the object: the object is gone, and the record points to nothing.

As long as no modification meets another key, a sequence of calls with every exception
caught is a session like one whose calls all succeed, so it is undone, squashed and
committed as such (`survives_iff`).
-/
namespace DeipChain.Chainbase

open Std OrderedMap Snapshots

variable {V K : Type} [DecidableEq K] {keys : List (V → K)}

/-- The call is made and an exception of it is caught. -/
def Call.caught (keys : List (V → K)) (call : Call V) (index : GenericIndex V) : GenericIndex V :=
  left (call.apply keys index)

/-- A sequence of calls, every exception of which is caught. -/
def applyCaught (keys : List (V → K)) (calls : List (Call V)) (index : GenericIndex V) :
    GenericIndex V :=
  calls.foldl (fun index call => call.caught keys index) index

/-- The call is a modification to a value that meets a unique key of another object. -/
def Call.meetsKey (keys : List (V → K)) (call : Call V) (index : GenericIndex V) : Bool :=
  match call with
  | .modify id modifier =>
    index.indices[id]?.any fun value => collides keys index.indices id (modifier value)
  | _ => false

/-- A condition on each call of a sequence, in the index that it is made on. -/
def AtEach (keys : List (V → K)) (holds : Call V → GenericIndex V → Prop) :
    List (Call V) → GenericIndex V → Prop
  | [], _ => True
  | call :: rest, index => holds call index ∧ AtEach keys holds rest (call.caught keys index)

/-- A call that throws has left the objects alone. -/
def Call.LeavesObjects (keys : List (V → K)) (call : Call V) (index : GenericIndex V) : Prop :=
  ∀ thrown reached, call.apply keys index = .error thrown reached →
    reached.indices = index.indices

/-- `undo`, which looks the created objects up to erase them. -/
def GenericIndex.undoFound (keys : List (V → K)) (index : GenericIndex V) : Outcome V :=
  match index.stack with
  | [] => index.undo keys
  | head :: _ =>
    if head.newIds.toList.all (fun id => index.indices.contains id) then index.undo keys
    else .error .notFound index

theorem AtEach.mono {holds meets : Call V → GenericIndex V → Prop}
    (implies : ∀ call index, holds call index → meets call index) {calls : List (Call V)}
    {index : GenericIndex V} (each : AtEach keys holds calls index) :
    AtEach keys meets calls index := by
  induction calls generalizing index with
  | nil => trivial
  | cons call rest inductionHypothesis =>
    exact ⟨implies call index each.1, inductionHypothesis each.2⟩

/-- A call that meets no key and throws has changed nothing at all. -/
theorem Call.error_unchanged {call : Call V} {index reached : GenericIndex V} {thrown : IndexError}
    (free : call.meetsKey keys index = false)
    (failed : call.apply keys index = .error thrown reached) : reached = index := by
  cases call with
  | emplace constructor =>
    simp only [Call.apply, GenericIndex.emplace] at failed
    split at failed
    · cases failed
      rfl
    · cases failed
  | modify id modifier =>
    simp only [Call.apply, GenericIndex.modify] at failed
    split at failed
    · cases failed
      rfl
    · rename_i value stored
      rw [Call.meetsKey, stored, Option.any_some] at free
      have same : (index.onModify id value).indices = index.indices := indices_onHead _ _
      rw [same, free] at failed
      cases failed
  | remove id =>
    simp only [Call.apply, GenericIndex.remove] at failed
    split at failed
    · cases failed
      rfl
    · cases failed

/-- Exactly a modification that meets a key takes an object with it. -/
theorem Call.leavesObjects_iff {call : Call V} {index : GenericIndex V} :
    call.LeavesObjects keys index ↔ call.meetsKey keys index = false := by
  constructor
  · intro leaves
    by_contra meets
    rw [Bool.not_eq_false] at meets
    cases call with
    | emplace constructor => cases meets
    | remove id => cases meets
    | modify id modifier =>
      cases stored : index.indices[id]? with
      | none =>
        rw [Call.meetsKey, stored] at meets
        cases meets
      | some value =>
        rw [Call.meetsKey, stored, Option.any_some] at meets
        have same : (index.onModify id value).indices = index.indices := indices_onHead _ _
        have failed : (Call.modify id modifier).apply keys index = .error .couldNotModify
            { index.onModify id value with indices := index.indices.erase id } := by
          simp only [Call.apply, GenericIndex.modify, stored, same, meets, if_true]
        have gone := congrArg (fun objects : Objects V => objects[id]?) (leaves _ _ failed)
        simp only [lookup_erase, if_pos, stored] at gone
        cases gone
  · intro free thrown reached failed
    rw [Call.error_unchanged free failed]

/-- A caught call that meets no key keeps the session. -/
theorem Session.caught {base index : GenericIndex V} {call : Call V}
    (session : Session keys base index) (free : call.meetsKey keys index = false) :
    Session keys base (call.caught keys index) := by
  unfold Call.caught
  cases applied : call.apply keys index with
  | error thrown reached =>
    rw [Call.error_unchanged free applied]
    exact session
  | ok result reached =>
    cases call with
    | emplace constructor => exact session.emplace applied
    | modify id modifier => exact session.modify applied
    | remove id => exact session.remove applied

theorem Session.applyCaught {base index : GenericIndex V} {calls : List (Call V)}
    (session : Session keys base index)
    (free : AtEach keys (fun call index => call.meetsKey keys index = false) calls index) :
    Session keys base (Chainbase.applyCaught keys calls index) := by
  induction calls generalizing index with
  | nil => exact session
  | cons call rest inductionHypothesis => exact inductionHypothesis (session.caught free.1) free.2

/-- In a session every created object is found. -/
theorem Session.undoFound {base index : GenericIndex V} (session : Session keys base index) :
    index.undoFound keys = index.undo keys := by
  obtain ⟨head, onTop, -, -, records⟩ := session.top
  rw [GenericIndex.undoFound, onTop]
  refine if_pos (List.all_eq_true.mpr fun id new => ?_)
  exact ExtTreeMap.contains_iff_mem.mpr (records.created id (ExtTreeSet.mem_toList.mp new)).2

section SameObjects

/-- Two indices that may differ in what they record. -/
def SameObjects (first second : GenericIndex V) : Prop :=
  first.indices = second.indices ∧ first.nextId = second.nextId

variable {first second : GenericIndex V}

theorem sameObjects_onHead (index : GenericIndex V) (change : UndoState V → UndoState V) :
    SameObjects (index.onHead change) index := by
  unfold GenericIndex.onHead
  split <;> exact ⟨rfl, rfl⟩

theorem SameObjects.meets_eq (same : SameObjects first second) (keys : List (V → K))
    (call : Call V) : call.meetsKey keys first = call.meetsKey keys second := by
  unfold Call.meetsKey
  rw [same.1]

/-- What a call does to the objects does not depend on the records. -/
theorem SameObjects.caught (same : SameObjects first second) (call : Call V) :
    SameObjects (call.caught keys first) (call.caught keys second) := by
  obtain ⟨objects, next⟩ := same
  cases call with
  | emplace constructor =>
    simp only [Call.caught, Call.apply, GenericIndex.emplace, objects, next]
    cases emplaceElement keys second.indices second.nextId (constructor second.nextId) with
    | none => exact ⟨objects, next⟩
    | some inserted =>
      have left := sameObjects_onHead
        { first with
          indices := inserted
          nextId := second.nextId + 1 }
        (fun head => { head with newIds := head.newIds.insert second.nextId })
      have right := sameObjects_onHead
        { second with
          indices := inserted
          nextId := second.nextId + 1 }
        (fun head => { head with newIds := head.newIds.insert second.nextId })
      exact ⟨left.1.trans right.1.symm, left.2.trans right.2.symm⟩
  | modify id modifier =>
    simp only [Call.caught, Call.apply, GenericIndex.modify, objects]
    cases stored : second.indices[id]? with
    | none => exact ⟨objects, next⟩
    | some value =>
      have left : SameObjects (first.onModify id value) first := sameObjects_onHead _ _
      have right : SameObjects (second.onModify id value) second := sameObjects_onHead _ _
      have nextIds := left.2.trans (next.trans right.2.symm)
      simp only [left.1, right.1, objects]
      split
      · exact ⟨rfl, nextIds⟩
      · exact ⟨rfl, nextIds⟩
  | remove id =>
    simp only [Call.caught, Call.apply, GenericIndex.remove, objects]
    cases stored : second.indices[id]? with
    | none => exact ⟨objects, next⟩
    | some value =>
      have left : SameObjects (first.onRemove id value) first := sameObjects_onHead _ _
      have right : SameObjects (second.onRemove id value) second := sameObjects_onHead _ _
      have nextIds := left.2.trans (next.trans right.2.symm)
      simp only [left.1, right.1, objects]
      exact ⟨rfl, nextIds⟩

theorem SameObjects.applyCaught (same : SameObjects first second) (calls : List (Call V)) :
    SameObjects (Chainbase.applyCaught keys calls first)
      (Chainbase.applyCaught keys calls second) := by
  induction calls generalizing first second with
  | nil => exact same
  | cons call rest inductionHypothesis => exact inductionHypothesis (same.caught call)

theorem SameObjects.atEach (same : SameObjects first second) {calls : List (Call V)}
    (free : AtEach keys (fun call index => call.meetsKey keys index = false) calls first) :
    AtEach keys (fun call index => call.meetsKey keys index = false) calls second := by
  induction calls generalizing first second with
  | nil => trivial
  | cons call rest inductionHypothesis =>
    exact ⟨(same.meets_eq keys call).symm.trans free.1, inductionHypothesis (same.caught call) free.2⟩

end SameObjects

/-- Failures in a session are survived. A call that throws has left the objects alone,
whatever the undo stack was. At the end the session can be undone, which gives the index of
its start back; it can be squashed into a session below whose calls left the objects alone
as well, so that the undo of both gives the start of that one back; and it can be
committed. The undo of both sessions together must be restorable. -/
structure Survives (keys : List (V → K)) (base : GenericIndex V) (calls : List (Call V)) :
    Prop where
  outside : AtEach keys (Call.LeavesObjects keys) calls base
  inside : AtEach keys (Call.LeavesObjects keys) calls base.startUndoSession
  undone : (applyCaught keys calls base.startUndoSession).undoFound keys = .ok () base
  squashed : (applyCaught keys calls base.startUndoSession).squash.indices =
      (applyCaught keys calls base.startUndoSession).indices ∧
    ∀ outer outerCalls, WellKept keys outer →
      AtEach keys (Call.LeavesObjects keys) outerCalls outer.startUndoSession →
      applyCaught keys outerCalls outer.startUndoSession = base →
      Restorable keys outer.indices (applyCaught keys calls base.startUndoSession).indices →
      (applyCaught keys calls base.startUndoSession).squash.undoFound keys = .ok () outer
  committed : ∀ revision, ((applyCaught keys calls base.startUndoSession).commit revision).indices =
    (applyCaught keys calls base.startUndoSession).indices

/-- Failures are survived exactly when no modification of the sequence meets a unique key of
another object, and the end of the sequence is restorable.

Proof: a modification that meets a key has erased its object. Where there is none, every call
that throws has changed nothing, so what is recorded is what a session of successful calls
records. -/
theorem survives_iff (keys : List (V → K)) (base : GenericIndex V) (calls : List (Call V))
    (kept : WellKept keys base) :
    Survives keys base calls ↔
      AtEach keys (fun call index => call.meetsKey keys index = false) calls base ∧
        Restorable keys base.indices (applyCaught keys calls base).indices := by
  have opened : SameObjects base base.startUndoSession := ⟨rfl, rfl⟩
  have objects : (applyCaught keys calls base.startUndoSession).indices =
      (applyCaught keys calls base).indices := (opened.applyCaught calls).1.symm
  have leaves : ∀ (call : Call V) index, call.LeavesObjects keys index →
      call.meetsKey keys index = false := fun _ _ => Call.leavesObjects_iff.mp
  have free : ∀ (call : Call V) index, call.meetsKey keys index = false →
      call.LeavesObjects keys index := fun _ _ => Call.leavesObjects_iff.mpr
  constructor
  · intro survives
    have session := (session_start kept).applyCaught (survives.inside.mono leaves)
    refine ⟨survives.outside.mono leaves, ?_⟩
    rw [← objects]
    have undone := survives.undone
    rw [session.undoFound] at undone
    exact session.undo_iff.mp undone
  · rintro ⟨outside, restorable⟩
    have inside := opened.atEach outside
    have session := (session_start kept).applyCaught inside
    refine ⟨outside.mono free, inside.mono free, ?_, ⟨GenericIndex.indices_squash _, ?_⟩,
      fun _ => rfl⟩
    · rw [session.undoFound]
      exact session.undo_iff.mpr (objects ▸ restorable)
    · intro outer outerCalls outerKept outerInside reached both
      have outerSession := (session_start outerKept).applyCaught (outerInside.mono leaves)
      rw [reached] at outerSession
      have merged := outerSession.squash session
      rw [merged.undoFound]
      exact merged.undo_iff.mpr (by rwa [GenericIndex.indices_squash])

/-- A refused object, a renaming and a removal of an object that is not there. -/
def refusedCalls : List (Call Nat) :=
  [.emplace (fun _ => 10), .modify 0 (fun _ => 30), .remove 7, .emplace (fun _ => 40)]

/-- The refusal and the failed removal are survived. -/
theorem refused_survives : Survives [id] twoObjects refusedCalls :=
  (survives_iff [id] twoObjects refusedCalls (by decide)).mpr
    ⟨⟨by decide, by decide, by decide, by decide, trivial⟩, by decide⟩

/-- A modification of object 0 to the key of object 1 throws. Object 0 is gone, and the undo
of the session throws as well. -/
theorem taken_key_loses :
    WellKept [id] twoObjects ∧
      ∃ reached, Call.apply [id] (.modify 0 (fun _ => 20)) twoObjects.startUndoSession =
          .error .couldNotModify reached ∧
        twoObjects.indices[0]? = some 10 ∧ reached.indices[0]? = none ∧
        ∃ stuck, reached.undoFound [id] = .error .notFound stuck :=
  ⟨by decide, _, rfl, by decide, by decide, _, rfl⟩

end DeipChain.Chainbase
