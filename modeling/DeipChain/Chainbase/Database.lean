import DeipChain.Chainbase.Sessions
import Mathlib.Logic.Function.Basic

/-!
# The chainbase database as one store of snapshots

`chainbase::database` has one index for each object type. Its `undo`, `squash`, `commit`,
`undo_all`, `start_undo_session` and `set_revision` walk over `_index_list` and call the
member function of that name on one index after the other; an exception leaves the indices
before it changed and the others not. The contents of the database are recorded nowhere as a
whole: each index has differences of its own.

`Represents` says that these stacks nevertheless stand for one store of whole snapshots
(`UndoStore`), in which a session of all indices is undone, squashed and committed at once.
Every operation keeps this (`step_refines`), so it holds at every point of every run
(`run_refines`), and a run returns exactly as long as the snapshots that it goes back to can
be gone back to.
-/
namespace DeipChain.Chainbase

open Std OrderedMap Snapshots

variable {ι : Type} {V K : ι → Type}

/-- `_index_list`: every object type has an index, and `add_index` refuses a type that has
one already. -/
structure IndexList (ι : Type) where
  types : List ι
  distinct : types.Nodup
  complete : ∀ i, i ∈ types

/-- The indices of the database by object type. -/
abbrev Database (V : ι → Type) := (i : ι) → GenericIndex (V i)

/-- The exceptions of the database: one of an index, or a revision set under an undo stack. -/
inductive DatabaseError where
  | ofIndex (thrown : IndexError)
  | existingUndoStack
  deriving DecidableEq, Repr

/-- The outcome of a function of the database: the state is kept when it throws. -/
abbrev DatabaseOutcome (S : Type) := EStateM.Result DatabaseError S Unit

/-- A member function of an index, as the database sees it. -/
def ofOutcome {W : Type} : Outcome W → DatabaseOutcome (GenericIndex W)
  | .ok _ reached => .ok () reached
  | .error thrown reached => .error (.ofIndex thrown) reached

/-- `set_revision` of an index. -/
def GenericIndex.setRevision {W : Type} (revision : Int) (index : GenericIndex W) :
    DatabaseOutcome (GenericIndex W) :=
  match index.stack with
  | [] => .ok () { index with revision := revision }
  | _ :: _ => .error .existingUndoStack index

section Walk

variable [DecidableEq ι]

/-- The walk over a list of indices, ended by the first exception. -/
def eachIndex (change : (i : ι) → GenericIndex (V i) → DatabaseOutcome (GenericIndex (V i))) :
    List ι → Database V → DatabaseOutcome (Database V)
  | [], database => .ok () database
  | i :: rest, database =>
    match change i (database i) with
    | .error thrown reached => .error thrown (Function.update database i reached)
    | .ok _ reached => eachIndex change rest (Function.update database i reached)

namespace Database

variable [∀ i, DecidableEq (K i)] (keys : (i : ι) → List (V i → K i)) (list : IndexList ι)

/-- `undo` -/
def undo : Database V → DatabaseOutcome (Database V) :=
  eachIndex (fun i index => ofOutcome (index.undo (keys i))) list.types

/-- `squash` -/
def squash : Database V → DatabaseOutcome (Database V) :=
  eachIndex (fun _ index => .ok () index.squash) list.types

/-- `commit` -/
def commit (revision : Int) : Database V → DatabaseOutcome (Database V) :=
  eachIndex (fun _ index => .ok () (index.commit revision)) list.types

/-- `undo_all`: all sessions of one index, then all of the next. -/
def undoAll : Database V → DatabaseOutcome (Database V) :=
  eachIndex (fun i index => ofOutcome (index.undoAll (keys i))) list.types

/-- `start_undo_session(true)` -/
def startUndoSession : Database V → DatabaseOutcome (Database V) :=
  eachIndex (fun _ index => .ok () index.startUndoSession) list.types

/-- `set_revision` -/
def setRevision (revision : Int) : Database V → DatabaseOutcome (Database V) :=
  eachIndex (fun _ index => index.setRevision revision) list.types

end Database

end Walk

/-- `revision`: that of the first index. -/
def Database.revision (list : IndexList ι) (database : Database V) : Int :=
  match list.types with
  | [] => -1
  | first :: _ => (database first).revision

/-- A database with all indices added and nothing in them. -/
def Database.empty : Database V := fun _ => GenericIndex.empty

/-- What is done to a database: a call on one index, whose exception is caught somewhere, or
one of the functions for all indices. -/
inductive Event (V : ι → Type) where
  | call (i : ι) (call : Call (V i))
  | startUndoSession
  | undo
  | squash
  | commit (revision : Int)
  | undoAll
  | setRevision (revision : Int)

/-- The contents of all indices. -/
abbrev Snapshot (V : ι → Type) := (i : ι) → Contents (V i)

section Steps

variable [∀ i, DecidableEq (K i)] (keys : (i : ι) → List (V i → K i))

/-- A modification that meets a unique key takes the object with it and leaves a record of
it; no other call does. -/
def Event.Free (store : UndoStore (Snapshot V)) : Event V → Prop
  | .call i made => made.meetsKey (keys i) (store.current i).bare = false
  | _ => True

/-- When the functions for all indices return. -/
def Event.Returns (store : UndoStore (Snapshot V)) : Event V → Prop
  | .undo =>
    ∀ first ∈ store.saved.head?, ∀ i,
      Restorable (keys i) (first i).indices (store.current i).indices
  | .undoAll =>
    ∀ i, Restores (keys i) (store.current i).indices (store.saved.map (fun saved => saved i))
  | .setRevision _ => ∀ _ : ι, store.saved = []
  | _ => True

instance decidableFree (store : UndoStore (Snapshot V)) :
    (event : Event V) → Decidable (event.Free keys store)
  | .call i made => inferInstanceAs (Decidable (made.meetsKey (keys i) (store.current i).bare = false))
  | .startUndoSession => .isTrue trivial
  | .undo => .isTrue trivial
  | .squash => .isTrue trivial
  | .commit _ => .isTrue trivial
  | .undoAll => .isTrue trivial
  | .setRevision _ => .isTrue trivial

variable [DecidableEq ι]

/-- The event on a store of snapshots. -/
def Event.effect (store : UndoStore (Snapshot V)) : Event V → UndoStore (Snapshot V)
  | .call i made =>
    store.put (Function.update store.current i (made.effect (keys i) (store.current i)))
  | .startUndoSession => store.start
  | .undo => store.undo
  | .squash => store.squash
  | .commit revision => store.commit revision
  | .undoAll => store.undoAll
  | .setRevision revision => { store with revision := revision }

/-- A condition on each event of a sequence, at the store that it meets. -/
def AtEachEvent (holds : UndoStore (Snapshot V) → Event V → Prop) :
    List (Event V) → UndoStore (Snapshot V) → Prop
  | [], _ => True
  | event :: rest, store => holds store event ∧ AtEachEvent holds rest (event.effect keys store)

variable (list : IndexList ι)

/-- One event on the database. -/
def step (database : Database V) : Event V → DatabaseOutcome (Database V)
  | .call i made => .ok () (Function.update database i (made.caught (keys i) (database i)))
  | .startUndoSession => database.startUndoSession list
  | .undo => database.undo keys list
  | .squash => database.squash list
  | .commit revision => database.commit list revision
  | .undoAll => database.undoAll keys list
  | .setRevision revision => database.setRevision list revision

/-- Events one after the other, ended by the first exception of the database. -/
def run : List (Event V) → Database V → DatabaseOutcome (Database V)
  | [], database => .ok () database
  | event :: rest, database => Snapshots.andThen (step keys list database event) (run rest)

end Steps

section Walk

variable [DecidableEq ι]
  {change : (i : ι) → GenericIndex (V i) → DatabaseOutcome (GenericIndex (V i))}

/-- A walk that returns has changed every index of the list once, and no other. -/
theorem eachIndex_ok {types : List ι} (distinct : types.Nodup) {database reached : Database V} :
    eachIndex change types database = .ok () reached ↔
      (∀ i ∈ types, change i (database i) = .ok () (reached i)) ∧
        ∀ i ∉ types, reached i = database i := by
  induction types generalizing database with
  | nil =>
    simp only [eachIndex, EStateM.Result.ok.injEq, true_and, List.not_mem_nil, false_implies,
      implies_true, not_false_eq_true, forall_const]
    exact ⟨fun same i => congrFun same.symm i, fun same => funext fun i => (same i).symm⟩
  | cons first rest inductionHypothesis =>
    obtain ⟨once, others⟩ := List.nodup_cons.mp distinct
    have apart : ∀ {i}, i ∈ rest → i ≠ first := fun member same => once (same ▸ member)
    rw [eachIndex]
    cases changed : change first (database first) with
    | error thrown middle =>
      simp only [reduceCtorEq, false_iff]
      rintro ⟨all, -⟩
      have returned := all first List.mem_cons_self
      rw [changed] at returned
      cases returned
    | ok _ middle =>
      simp only [inductionHypothesis others]
      constructor
      · rintro ⟨inside, outside⟩
        have here : reached first = middle := by
          rw [outside first once, Function.update_self]
        refine ⟨fun i member => ?_, fun i unlisted => ?_⟩
        · rcases List.mem_cons.mp member with rfl | later
          · rw [changed, here]
          · have after := inside i later
            rwa [Function.update_of_ne (apart later)] at after
        · have both : ¬ i = first ∧ i ∉ rest := by simpa using unlisted
          rw [outside i both.2, Function.update_of_ne both.1]
      · rintro ⟨inside, outside⟩
        have here := inside first List.mem_cons_self
        rw [changed, EStateM.Result.ok.injEq] at here
        refine ⟨fun i member => ?_, fun i absent => ?_⟩
        · rw [Function.update_of_ne (apart member)]
          exact inside i (List.mem_cons_of_mem _ member)
        · by_cases same : i = first
          · subst same
            rw [Function.update_self, ← here.2]
          · rw [Function.update_of_ne same]
            exact outside i (by simp [same, absent])

variable {list : IndexList ι}

theorem eachIndex_iff {database reached : Database V} :
    eachIndex change list.types database = .ok () reached ↔
      ∀ i, change i (database i) = .ok () (reached i) := by
  rw [eachIndex_ok list.distinct]
  exact ⟨fun both i => both.1 i (list.complete i),
    fun all => ⟨fun i _ => all i, fun i absent => absurd (list.complete i) absent⟩⟩

/-- The walk returns exactly when each of its calls does. -/
theorem eachIndex_returns {database : Database V} :
    (∃ reached, eachIndex change list.types database = .ok () reached) ↔
      ∀ i, ∃ after, change i (database i) = .ok () after := by
  simp only [eachIndex_iff]
  constructor
  · rintro ⟨reached, all⟩ i
    exact ⟨reached i, all i⟩
  · intro all
    choose reached done using all
    exact ⟨reached, done⟩

end Walk

theorem ofOutcome_ok {W : Type} {outcome : Outcome W} {reached : GenericIndex W} :
    ofOutcome outcome = .ok () reached ↔ outcome = .ok () reached := by
  cases outcome with
  | ok result after => simp only [ofOutcome, EStateM.Result.ok.injEq]
  | error thrown after => simp only [ofOutcome, reduceCtorEq]

/-- The indices stand for a store of snapshots: each has an undo state for every open session,
which leads back to what the snapshot has of that index. -/
structure Represents [∀ i, DecidableEq (K i)] (keys : (i : ι) → List (V i → K i)) (store : UndoStore (Snapshot V))
    (database : Database V) : Prop where
  stacked : ∀ i, Stacked (keys i) (database i) (store.saved.map (fun saved => saved i))
  current : ∀ i, (database i).contents = store.current i
  revision : ∀ i, (database i).revision = store.revision

/-- The store of a database as opened. -/
def emptyStore : UndoStore (Snapshot V) :=
  { current := fun _ => Contents.empty, saved := [], revision := 0 }

variable [∀ i, DecidableEq (K i)] {keys : (i : ι) → List (V i → K i)}

theorem represents_empty (keys : (i : ι) → List (V i → K i)) : Represents keys emptyStore (Database.empty : Database V) where
  stacked i := stacked_empty (keys i)
  current _ := rfl
  revision _ := rfl

namespace Represents

variable {store : UndoStore (Snapshot V)} {database reached : Database V}

/-- The revision of the database is that of the store, as soon as it has an index. -/
theorem revision_eq (represents : Represents keys store database) {list : IndexList ι}
    (some : list.types ≠ []) :
    database.revision list = store.revision := by
  obtain ⟨first, rest, types⟩ := List.exists_cons_of_ne_nil some
  rw [Database.revision, types]
  exact represents.revision first

theorem start (represents : Represents keys store database)
    (all : ∀ i, reached i = (database i).startUndoSession) :
    Represents keys store.start reached where
  stacked i := by
    rw [all, UndoStore.start_saved, List.map_cons, ← represents.current i]
    exact (represents.stacked i).start
  current i := by
    rw [all]
    exact represents.current i
  revision i := by
    rw [all]
    exact congrArg (· + 1) (represents.revision i)

theorem undo (represents : Represents keys store database)
    (all : ∀ i, (database i).undo (keys i) = .ok () (reached i)) :
    Represents keys store.undo reached := by
  obtain ⟨current, saved, revision⟩ := store
  cases saved with
  | nil =>
    have same : reached = database := by
      funext i
      have done := all i
      rw [GenericIndex.undo, (represents.stacked i).closed_iff.mpr rfl] at done
      exact (EStateM.Result.ok.inj done).2.symm
    exact same ▸ represents
  | cons first rest =>
    have back := fun i => (represents.stacked i).of_undo (all i)
    refine ⟨fun i => (back i).1, fun i => (back i).2.1, fun i => ?_⟩
    rw [(back i).2.2, represents.revision i]
    rfl

theorem undo_iff (represents : Represents keys store database) :
    (∀ i, ∃ after, (database i).undo (keys i) = .ok () after) ↔
      Event.Returns keys store .undo := by
  obtain ⟨current, saved, revision⟩ := store
  cases saved with
  | nil =>
    refine iff_of_true (fun i => ⟨database i, ?_⟩) (fun first member => by cases member)
    rw [GenericIndex.undo, (represents.stacked i).closed_iff.mpr rfl]
  | cons first rest =>
    have each : ∀ i, (∃ after, (database i).undo (keys i) = .ok () after) ↔
        Restorable (keys i) (first i).indices (current i).indices := by
      intro i
      rw [(represents.stacked i).undo_iff]
      exact iff_of_eq (congrArg (fun contents : Contents (V i) =>
        Restorable (keys i) (first i).indices contents.indices) (represents.current i))
    simp only [each, Event.Returns, List.head?_cons, Option.mem_some, forall_eq']

theorem squash (represents : Represents keys store database)
    (all : ∀ i, reached i = (database i).squash) : Represents keys store.squash reached := by
  rw [UndoStore.squash_eq]
  refine ⟨fun i => ?_, fun i => ?_, fun i => ?_⟩
  · rw [all, List.map_tail]
    exact (represents.stacked i).squash
  · rw [all, contents_squash]
    exact represents.current i
  · rw [all, (represents.stacked i).revision_squash, List.length_map, represents.revision i]

theorem commit (represents : Represents keys store database) (revision : Int)
    (all : ∀ i, reached i = (database i).commit revision) :
    Represents keys (store.commit revision) reached where
  stacked i := by
    rw [all, UndoStore.commit, List.map_take, ← represents.revision i]
    exact (represents.stacked i).commit revision
  current i := by
    rw [all]
    exact represents.current i
  revision i := by
    rw [all]
    exact represents.revision i

theorem undoAll (represents : Represents keys store database)
    (all : ∀ i, (database i).undoAll (keys i) = .ok () (reached i)) :
    Represents keys store.undoAll reached := by
  have back : ∀ i, Stacked (keys i) (reached i) [] ∧ (reached i).contents =
      (store.saved.map (fun saved => saved i)).getLastD (database i).contents ∧
      (reached i).revision = (database i).revision - store.saved.length := by
    intro i
    have done := all i
    rw [GenericIndex.undoAll, (represents.stacked i).length_eq] at done
    have ended := (represents.stacked i).of_undoRounds done
    rwa [List.length_map] at ended
  rw [UndoStore.undoAll_eq]
  refine ⟨fun i => (back i).1, fun i => ?_, fun i => ?_⟩
  · rw [(back i).2.1, represents.current i, List.getLastD_map]
  · rw [(back i).2.2, represents.revision i]

theorem setRevision (represents : Represents keys store database) (revision : Int)
    (all : ∀ i, (database i).setRevision revision = .ok () (reached i)) :
    Represents keys { store with revision := revision } reached := by
  have closed : ∀ i, (database i).stack = [] ∧
      reached i = { database i with revision := revision } := by
    intro i
    have done := all i
    unfold GenericIndex.setRevision at done
    split at done
    · rename_i closed
      exact ⟨closed, (EStateM.Result.ok.inj done).2.symm⟩
    · cases done
  refine ⟨fun i => ?_, fun i => ?_, fun i => ?_⟩
  · obtain ⟨closed, reset⟩ := closed i
    rw [reset, (represents.stacked i).closed_iff.mp closed]
    exact .bottom ⟨(represents.stacked i).kept.unique, (represents.stacked i).kept.below⟩ closed
  · rw [(closed i).2]
    exact represents.current i
  · rw [(closed i).2]

theorem setRevision_iff (represents : Represents keys store database) (revision : Int) :
    (∀ i, ∃ after, (database i).setRevision revision = .ok () after) ↔
      Event.Returns keys store (.setRevision revision) := by
  refine forall_congr' fun i => ?_
  have stacked := (represents.stacked i).closed_iff
  rw [List.map_eq_nil_iff] at stacked
  rw [← stacked, GenericIndex.setRevision]
  cases (database i).stack with
  | nil => exact iff_of_true ⟨_, rfl⟩ rfl
  | cons head rest => simp

theorem undoAll_iff (represents : Represents keys store database) :
    (∀ i, ∃ after, (database i).undoAll (keys i) = .ok () after) ↔
      Event.Returns keys store .undoAll := by
  have each : ∀ i, (∃ after, (database i).undoAll (keys i) = .ok () after) ↔
      Restores (keys i) (store.current i).indices (store.saved.map (fun saved => saved i)) := by
    intro i
    rw [GenericIndex.undoAll, (represents.stacked i).length_eq,
      (represents.stacked i).undoRounds_iff]
    exact iff_of_eq (congrArg (fun contents : Contents (V i) =>
      Restores (keys i) contents.indices _) (represents.current i))
  simp only [each, Event.Returns]

variable [DecidableEq ι]

theorem call (represents : Represents keys store database) {i : ι} {made : Call (V i)}
    (free : made.meetsKey (keys i) (store.current i).bare = false) :
    Represents keys ((Event.call i made).effect keys store)
      (Function.update database i (made.caught (keys i) (database i))) := by
  have unmet : made.meetsKey (keys i) (database i) = false := by
    rw [(sameObjects_bare (database i)).meets_eq, represents.current i, free]
  refine ⟨fun j => ?_, fun j => ?_, fun j => ?_⟩
  · by_cases same : j = i
    · subst same
      rw [Function.update_self]
      exact (represents.stacked j).caught unmet
    · rw [Function.update_of_ne same]
      exact represents.stacked j
  · by_cases same : j = i
    · subst same
      simp only [Event.effect, UndoStore.put_current, Function.update_self,
        Call.contents_caught, represents.current]
    · simp only [Event.effect, UndoStore.put_current, Function.update_of_ne same,
        represents.current]
  · by_cases same : j = i
    · subst same
      rw [Function.update_self, (Call.caught_frame made (database j)).2]
      exact represents.revision j
    · rw [Function.update_of_ne same]
      exact represents.revision j

end Represents

section Runs

variable [DecidableEq ι] (list : IndexList ι) {store : UndoStore (Snapshot V)}
  {database : Database V}

/-- One event on indices that stand for a store: when it returns, they stand for the store
after the event, and it returns exactly when it should. -/
theorem step_refines (represents : Represents keys store database) {event : Event V}
    (free : event.Free keys store) :
    (∀ reached, step keys list database event = .ok () reached →
      Represents keys (event.effect keys store) reached) ∧
    ((∃ reached, step keys list database event = .ok () reached) ↔ event.Returns keys store) := by
  have total : ∀ (change : (i : ι) → GenericIndex (V i) → GenericIndex (V i)) (holds : Prop),
      holds → ((∃ reached, eachIndex (fun i index => .ok () (change i index)) list.types database =
        .ok () reached) ↔ holds) := fun change holds true =>
    iff_of_true (eachIndex_returns.mpr fun i => ⟨_, rfl⟩) true
  have changed : ∀ {change : (i : ι) → GenericIndex (V i) → GenericIndex (V i)}
      {reached : Database V}, eachIndex (fun i index => .ok () (change i index)) list.types
        database = .ok () reached → ∀ i, reached i = change i (database i) := fun done i =>
    (EStateM.Result.ok.inj (eachIndex_iff.mp done i)).2.symm
  cases event with
  | call i made =>
    refine ⟨fun reached done => ?_, iff_of_true ⟨_, rfl⟩ trivial⟩
    cases done
    exact represents.call free
  | startUndoSession =>
    exact ⟨fun reached done => represents.start (changed done), total _ _ trivial⟩
  | undo =>
    refine ⟨fun reached done => represents.undo fun i =>
      ofOutcome_ok.mp (eachIndex_iff.mp done i), ?_⟩
    rw [← represents.undo_iff]
    simp only [step, Database.undo, eachIndex_returns, ofOutcome_ok]
  | squash =>
    exact ⟨fun reached done => represents.squash (changed done), total _ _ trivial⟩
  | commit revision =>
    exact ⟨fun reached done => represents.commit revision (changed done), total _ _ trivial⟩
  | undoAll =>
    refine ⟨fun reached done => represents.undoAll fun i =>
      ofOutcome_ok.mp (eachIndex_iff.mp done i), ?_⟩
    rw [← represents.undoAll_iff]
    simp only [step, Database.undoAll, eachIndex_returns, ofOutcome_ok]
  | setRevision revision =>
    refine ⟨fun reached done => represents.setRevision revision (eachIndex_iff.mp done), ?_⟩
    rw [← represents.setRevision_iff revision]
    simp only [step, Database.setRevision, eachIndex_returns]

/-- Every run of events in which no modification meets a unique key: as long as it returns, the
indices stand for the run on whole snapshots, and it returns exactly when every undo goes back
to contents that can be gone back to and no revision is set under an open session.

Proof: by induction on the events, each of which is `step_refines`. -/
theorem run_refines (represents : Represents keys store database) (events : List (Event V))
    (free : AtEachEvent keys (Event.Free keys) events store) :
    (∀ reached, run keys list events database = .ok () reached →
      Represents keys (events.foldl (Event.effect keys) store) reached) ∧
    ((∃ reached, run keys list events database = .ok () reached) ↔
      AtEachEvent keys (Event.Returns keys) events store) := by
  induction events generalizing store database with
  | nil =>
    refine ⟨fun reached done => ?_, iff_of_true ⟨database, rfl⟩ trivial⟩
    cases done
    exact represents
  | cons event rest inductionHypothesis =>
    obtain ⟨first, later⟩ := free
    obtain ⟨kept, returns⟩ := step_refines list represents first
    simp only [run, andThen_ok]
    constructor
    · rintro reached ⟨middle, stepped, done⟩
      exact (inductionHypothesis (kept middle stepped) later).1 reached done
    · rw [AtEachEvent, ← returns]
      constructor
      · rintro ⟨reached, middle, stepped, done⟩
        exact ⟨⟨middle, stepped⟩,
          (inductionHypothesis (kept middle stepped) later).2.mp ⟨reached, done⟩⟩
      · rintro ⟨⟨middle, stepped⟩, further⟩
        obtain ⟨reached, done⟩ := (inductionHypothesis (kept middle stepped) later).2.mpr further
        exact ⟨reached, middle, stepped, done⟩

end Runs

/-- Two indices whose values are keys. -/
def plainKeys : (i : Bool) → List (Nat → Nat) := fun _ => [id]

def twoTypes : IndexList Bool where
  types := [false, true]
  distinct := by decide
  complete := by decide

/-- A session with an object in each index, and in it one that renames the first, loses a
refused object and is merged; then all of it is undone. -/
def nestedEvents : List (Event fun _ : Bool => Nat) :=
  [.setRevision 7, .startUndoSession, .call false (.emplace fun _ => 10),
    .call true (.emplace fun _ => 20), .startUndoSession, .call false (.modify 0 fun _ => 30),
    .call false (.emplace fun _ => 30), .squash, .call true (.remove 0), .undo]

/-- The walks over both indices come back to the database without objects, at revision 7. -/
theorem nested_sessions_undone :
    ∃ reached, run plainKeys twoTypes nestedEvents Database.empty = .ok () reached ∧
      Represents plainKeys { emptyStore with revision := 7 } reached := by
  obtain ⟨represented, returns⟩ := run_refines twoTypes (represents_empty plainKeys) nestedEvents
    ⟨trivial, trivial, rfl, rfl, trivial, by decide, by decide, trivial, by decide, trivial, trivial⟩
  have undone : Event.Returns plainKeys
      (nestedEvents.dropLast.foldl (Event.effect plainKeys) emptyStore) .undo := by
    rintro first ⟨⟩ i id value start
    have nothing : (∅ : Objects Nat)[id]? = some value := start
    simp at nothing
  obtain ⟨reached, done⟩ := returns.mpr ⟨fun _ => rfl, trivial, trivial, trivial, trivial,
    trivial, trivial, trivial, trivial, undone, trivial⟩
  exact ⟨reached, done, represented reached done⟩

end DeipChain.Chainbase
