import DeipChain.Lib.OrderedMap

/-!
# The chainbase index and its undo stack

`chainbase::generic_index` keeps the objects of one type in a multi-index
container and a deque of undo states above them. The object identifier is the
primary key and is managed by the index; every other unique key of the container
is one of the functions in `keys`. The containers `old_values`,
`removed_values` and `new_ids` are ordered maps and sets, so a walk over them is
a walk by ascending identifier.

The newest undo state is the first element of `stack`, where the deque has it at
its back. An exception leaves the members of the index as they were at the throw,
so the result of every call carries a state in both cases. The multi-index
`modify` without a rollback functor erases the element whose new value collides.
-/
namespace DeipChain.Chainbase

open Std

variable {V K : Type}

/-- The objects of one index by identifier. -/
abbrev Objects (V : Type) := ExtTreeMap Nat V

/-- The exceptions thrown by `generic_index`. A reference to an object that is not
in the container has no counterpart in the source and ends in `notFound`. -/
inductive IndexError where
  | couldNotInsert
  | couldNotModify
  | couldNotRestore
  | notFound
  deriving DecidableEq, Repr

/-- `undo_state`: the record of one session's changes. -/
structure UndoState (V : Type) where
  oldValues : ExtTreeMap Nat V
  removedValues : ExtTreeMap Nat V
  newIds : ExtTreeSet Nat
  oldNextId : Nat
  revision : Int
  deriving DecidableEq

/-- The members of `generic_index`. -/
structure GenericIndex (V : Type) where
  stack : List (UndoState V)
  revision : Int
  nextId : Nat
  indices : Objects V
  deriving DecidableEq

instance decidableEqResult {E S A : Type} [DecidableEq E] [DecidableEq S] [DecidableEq A] :
    DecidableEq (EStateM.Result E S A)
  | .ok value state, .ok other after =>
    decidable_of_iff (value = other ∧ state = after) (by rw [EStateM.Result.ok.injEq])
  | .error error state, .error other after =>
    decidable_of_iff (error = other ∧ state = after) (by rw [EStateM.Result.error.injEq])
  | .ok _ _, .error _ _ => isFalse nofun
  | .error _ _, .ok _ _ => isFalse nofun

/-- The outcome of a member function: the state is kept when it throws. -/
abbrev Outcome (V : Type) := EStateM.Result IndexError (GenericIndex V) Unit

/-- An index as constructed: no object, no session. -/
def GenericIndex.empty : GenericIndex V :=
  { stack := [], revision := 0, nextId := 0, indices := ∅ }

section Containers

variable [DecidableEq K]

/-- Two values agree on one of the unique keys. -/
def shareKey (keys : List (V → K)) (left right : V) : Bool :=
  keys.any (fun key => key left = key right)

/-- Another element than `id` holds a unique key of `value`. -/
def collides (keys : List (V → K)) (objects : Objects V) (id : Nat) (value : V) : Bool :=
  objects.toList.any (fun item => item.1 ≠ id && shareKey keys item.2 value)

/-- The container's `emplace`: refused, with nothing changed, when the identifier
or a unique key is taken. -/
def emplaceElement (keys : List (V → K)) (objects : Objects V) (id : Nat) (value : V) :
    Option (Objects V) :=
  if objects.contains id || collides keys objects id value then none
  else some (objects.insert id value)

end Containers

namespace GenericIndex

/-- Apply a change to the newest undo state; `enabled()` is a nonempty stack. -/
def onHead (index : GenericIndex V) (change : UndoState V → UndoState V) : GenericIndex V :=
  match index.stack with
  | [] => index
  | head :: rest => { index with stack := change head :: rest }

/-- `on_create` -/
def onCreate (index : GenericIndex V) (id : Nat) : GenericIndex V :=
  index.onHead (fun head => { head with newIds := head.newIds.insert id })

/-- `on_modify`: only the first value seen in the session is kept. -/
def onModify (index : GenericIndex V) (id : Nat) (value : V) : GenericIndex V :=
  index.onHead (fun head =>
    if head.newIds.contains id then head
    else if head.oldValues.contains id then head
    else { head with oldValues := head.oldValues.insert id value })

/-- `on_remove`: an object created in the session is forgotten, one modified in
it moves its recorded value to the removed ones. -/
def onRemove (index : GenericIndex V) (id : Nat) (value : V) : GenericIndex V :=
  index.onHead (fun head =>
    if head.newIds.contains id then { head with newIds := head.newIds.erase id }
    else match head.oldValues[id]? with
      | some recorded =>
        { head with
          removedValues := head.removedValues.insertIfNew id recorded
          oldValues := head.oldValues.erase id }
      | none =>
        if head.removedValues.contains id then head
        else { head with removedValues := head.removedValues.insert id value })

variable [DecidableEq K]

/-- `emplace`: the constructor sees the identifier it is given. -/
def emplace (keys : List (V → K)) (constructor : Nat → V) (index : GenericIndex V) : Outcome V :=
  let newId := index.nextId
  match emplaceElement keys index.indices newId (constructor newId) with
  | none => .error .couldNotInsert index
  | some objects => .ok () ({ index with indices := objects, nextId := newId + 1 }.onCreate newId)

/-- `modify`: recorded first, then changed in place; a collision erases the
element before the exception is thrown. -/
def modify (keys : List (V → K)) (id : Nat) (modifier : V → V) (index : GenericIndex V) :
    Outcome V :=
  match index.indices[id]? with
  | none => .error .notFound index
  | some value =>
    let recorded := index.onModify id value
    if collides keys recorded.indices id (modifier value) then
      .error .couldNotModify { recorded with indices := recorded.indices.erase id }
    else
      .ok () { recorded with indices := recorded.indices.insert id (modifier value) }

/-- `remove` -/
def remove (id : Nat) (index : GenericIndex V) : Outcome V :=
  match index.indices[id]? with
  | none => .error .notFound index
  | some value =>
    let recorded := index.onRemove id value
    .ok () { recorded with indices := recorded.indices.erase id }

/-- `start_undo_session(true)` -/
def startUndoSession (index : GenericIndex V) : GenericIndex V :=
  { index with
    stack :=
      { oldValues := ∅, removedValues := ∅, newIds := ∅,
        oldNextId := index.nextId, revision := index.revision + 1 } :: index.stack
    revision := index.revision + 1 }

/-- First loop of `undo`: every modified object gets its recorded value back
through a uniqueness-checked change. -/
def restoreOld (keys : List (V → K)) :
    List (Nat × V) → Objects V → EStateM.Result IndexError (Objects V) Unit
  | [], objects => .ok () objects
  | (id, value) :: rest, objects =>
    if !objects.contains id then .error .notFound objects
    else if collides keys objects id value then .error .couldNotModify (objects.erase id)
    else restoreOld keys rest (objects.insert id value)

/-- Second loop of `undo`: the objects created in the session are erased. -/
def eraseNew : List Nat → Objects V → Objects V
  | [], objects => objects
  | id :: rest, objects => eraseNew rest (objects.erase id)

/-- Third loop of `undo`: the removed objects are put back. -/
def restoreRemoved (keys : List (V → K)) :
    List (Nat × V) → Objects V → EStateM.Result IndexError (Objects V) Unit
  | [], objects => .ok () objects
  | (id, value) :: rest, objects =>
    match emplaceElement keys objects id value with
    | none => .error .couldNotRestore objects
    | some restored => restoreRemoved keys rest restored

/-- `undo`: nothing happens without a session. A throw leaves the state on the
stack with the objects restored so far. -/
def undo (keys : List (V → K)) (index : GenericIndex V) : Outcome V :=
  match index.stack with
  | [] => .ok () index
  | head :: rest =>
    match restoreOld keys head.oldValues.toList index.indices with
    | .error thrown objects => .error thrown { index with indices := objects }
    | .ok _ objects =>
      match restoreRemoved keys head.removedValues.toList
          (eraseNew head.newIds.toList objects) with
      | .error thrown restored =>
        .error thrown { index with indices := restored, nextId := head.oldNextId }
      | .ok _ restored =>
        .ok () { stack := rest, revision := index.revision - 1,
                 nextId := head.oldNextId, indices := restored }

/-- First loop of `squash`: a modification is taken over only for an object the
previous state does not know. -/
def mergeOld : List (Nat × V) → UndoState V → UndoState V
  | [], previous => previous
  | (id, value) :: rest, previous =>
    if previous.newIds.contains id then mergeOld rest previous
    else if previous.oldValues.contains id then mergeOld rest previous
    else mergeOld rest { previous with oldValues := previous.oldValues.insert id value }

/-- Second loop of `squash`. -/
def mergeNew : List Nat → UndoState V → UndoState V
  | [], previous => previous
  | id :: rest, previous => mergeNew rest { previous with newIds := previous.newIds.insert id }

/-- Third loop of `squash`: the removal of an object the previous state created
or modified changes that entry. -/
def mergeRemoved : List (Nat × V) → UndoState V → UndoState V
  | [], previous => previous
  | (id, value) :: rest, previous =>
    if previous.newIds.contains id then
      mergeRemoved rest { previous with newIds := previous.newIds.erase id }
    else match previous.oldValues[id]? with
      | some recorded =>
        mergeRemoved rest { previous with
          removedValues := previous.removedValues.insertIfNew id recorded
          oldValues := previous.oldValues.erase id }
      | none =>
        mergeRemoved rest
          { previous with removedValues := previous.removedValues.insertIfNew id value }

/-- The merge of the newest undo state into the one below it. -/
def mergeStates (state previous : UndoState V) : UndoState V :=
  mergeRemoved state.removedValues.toList
    (mergeNew state.newIds.toList (mergeOld state.oldValues.toList previous))

/-- `squash`: a lone state is dropped, and that branch returns before the
revision is decremented. -/
def squash (index : GenericIndex V) : GenericIndex V :=
  match index.stack with
  | [] => index
  | [_] => { index with stack := [] }
  | state :: previous :: rest =>
    { index with stack := mergeStates state previous :: rest, revision := index.revision - 1 }

/-- `commit`: states are dropped from the old end while their revision is not
above the given one. -/
def commit (revision : Int) (index : GenericIndex V) : GenericIndex V :=
  { index with
    stack := (index.stack.reverse.dropWhile (fun state => state.revision ≤ revision)).reverse }

end GenericIndex

/-- A call on an index inside a session. -/
inductive Call (V : Type) where
  | emplace (constructor : Nat → V)
  | modify (id : Nat) (modifier : V → V)
  | remove (id : Nat)

/-- One call on an index. -/
def Call.apply [DecidableEq K] (keys : List (V → K)) :
    Call V → GenericIndex V → Outcome V
  | .emplace constructor, index => index.emplace keys constructor
  | .modify id modifier, index => index.modify keys id modifier
  | .remove id, index => index.remove id

/-- A sequence of calls, ended by the first exception. -/
def applyCalls [DecidableEq K] (keys : List (V → K)) :
    List (Call V) → GenericIndex V → Outcome V
  | [], index => .ok () index
  | call :: rest, index =>
    match call.apply keys index with
    | .error thrown reached => .error thrown reached
    | .ok _ reached => applyCalls keys rest reached

end DeipChain.Chainbase
