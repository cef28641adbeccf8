import Mathlib.Logic.Function.Iterate
import Mathlib.Tactic.Common

/-!
# A store with nested sessions

A store keeps one current state and, for every open session, the state the
session started from, newest first. The sessions are numbered without gaps and the
newest one has the number of the store's revision. Undoing a session brings its
starting state back, squashing it forgets that state, and committing forgets the
starting states of all sessions up to a number.

A program on such a store writes states, throws, and opens sessions of its own,
each of which is squashed when its body returns and undone when its body throws.
`Script` is the tree of what one such program does from one state. Under an open
session a script leaves the stack and the revision as it found them and acts on the
current state alone. Without one, every session it completes leaves the revision one
higher, because a squash with nothing below does not give the number back.
-/
namespace DeipChain.Snapshots

variable {S R E : Type}

/-- The current state, the starting states of the open sessions, and the number of
the newest of them. -/
structure UndoStore (S : Type) where
  current : S
  saved : List S
  revision : Int
  deriving DecidableEq

namespace UndoStore

/-- Open a session. -/
def start (store : UndoStore S) : UndoStore S :=
  { current := store.current, saved := store.current :: store.saved,
    revision := store.revision + 1 }

/-- Undo the newest session, if there is one. -/
def undo (store : UndoStore S) : UndoStore S :=
  match store.saved with
  | [] => store
  | first :: rest => { current := first, saved := rest, revision := store.revision - 1 }

/-- Merge the newest session into the one below; a lone session is dropped with the
revision left as it is. -/
def squash (store : UndoStore S) : UndoStore S :=
  match store.saved with
  | [] => store
  | [_] => { store with saved := [] }
  | _ :: first :: rest => { store with saved := first :: rest, revision := store.revision - 1 }

/-- Forget the sessions numbered up to `revision`. -/
def commit (revision : Int) (store : UndoStore S) : UndoStore S :=
  { store with saved := store.saved.take (store.revision - revision).toNat }

/-- Undo every session. -/
def undoAll (store : UndoStore S) : UndoStore S :=
  undo^[store.saved.length] store

/-- Write a state. -/
def put (store : UndoStore S) (state : S) : UndoStore S :=
  { store with current := state }

/-- Count `number` sessions whose squash did not give their numbers back. -/
def bump (store : UndoStore S) (number : Nat) : UndoStore S :=
  { store with revision := store.revision + number }

@[simp] theorem put_current (store : UndoStore S) (state : S) :
    (store.put state).current = state := rfl

@[simp] theorem put_saved (store : UndoStore S) (state : S) :
    (store.put state).saved = store.saved := rfl

@[simp] theorem put_revision (store : UndoStore S) (state : S) :
    (store.put state).revision = store.revision := rfl

@[simp] theorem put_put (store : UndoStore S) (first second : S) :
    (store.put first).put second = store.put second := rfl

@[simp] theorem put_self (store : UndoStore S) : store.put store.current = store := rfl

@[simp] theorem bump_current (store : UndoStore S) (number : Nat) :
    (store.bump number).current = store.current := rfl

@[simp] theorem bump_saved (store : UndoStore S) (number : Nat) :
    (store.bump number).saved = store.saved := rfl

@[simp] theorem bump_put (store : UndoStore S) (state : S) (number : Nat) :
    (store.put state).bump number = (store.bump number).put state := rfl

@[simp] theorem bump_bump (store : UndoStore S) (first second : Nat) :
    (store.bump first).bump second = store.bump (first + second) := by
  simp [bump, Int.add_assoc]

@[simp] theorem bump_zero (store : UndoStore S) : store.bump 0 = store := by
  simp [bump]

@[simp] theorem start_current (store : UndoStore S) : store.start.current = store.current := rfl

@[simp] theorem start_saved (store : UndoStore S) :
    store.start.saved = store.current :: store.saved := rfl

@[simp] theorem start_revision (store : UndoStore S) :
    store.start.revision = store.revision + 1 := rfl

/-- Whatever was written in a session, undoing it gives the store back. -/
@[simp] theorem undo_put_start (store : UndoStore S) (state : S) :
    (store.start.put state).undo = store := by
  simp [undo, start, put]

@[simp] theorem undo_start (store : UndoStore S) : store.start.undo = store := by
  simp [undo, start]

/-- A squash forgets the newest session; its number is given back unless it was the only one. -/
theorem squash_eq (store : UndoStore S) :
    store.squash = { store with
      saved := store.saved.tail
      revision := if store.saved.length < 2 then store.revision else store.revision - 1 } := by
  obtain ⟨current, saved, revision⟩ := store
  rcases saved with _ | ⟨first, _ | ⟨second, rest⟩⟩
  · rfl
  · rfl
  · have several : ¬ rest.length + 1 + 1 < 2 := by omega
    simp [squash, several]

/-- Undoing every session goes back to the start of the oldest. -/
theorem undoAll_eq (store : UndoStore S) :
    store.undoAll = { current := store.saved.getLastD store.current, saved := [],
                      revision := store.revision - store.saved.length } := by
  obtain ⟨current, saved, revision⟩ := store
  induction saved generalizing current revision with
  | nil => simp [undoAll]
  | cons first rest inductionHypothesis =>
    have lower := inductionHypothesis first (revision - 1)
    simp only [undoAll, List.length_cons, Function.iterate_succ_apply] at lower ⊢
    simp only [undo, lower, List.getLastD_cons, mk.injEq, true_and]
    omega

/-- Under an open session, squashing a nested one keeps what was written. -/
theorem squash_put_start {store : UndoStore S} (opened : store.saved ≠ []) (state : S) :
    (store.start.put state).squash = store.put state := by
  cases below : store.saved with
  | nil => exact absurd below opened
  | cons first rest => simp [squash, start, put, below]

/-- With nothing below, the squashed session leaves its number behind. -/
theorem squash_put_start_closed {store : UndoStore S} (closed : store.saved = []) (state : S) :
    (store.start.put state).squash = (store.put state).bump 1 := by
  simp [squash, start, put, bump, closed]

end UndoStore

/-- The result of a program: the state is kept when it throws. -/
abbrev Outcome (E S : Type) := EStateM.Result E S Unit

/-- The state of a result, whether returned or left behind by a throw. -/
def left {A : Type} : EStateM.Result E S A → S
  | .ok _ state => state
  | .error _ state => state

/-- The exception of a result, if it is one. -/
def thrownBy {A : Type} : EStateM.Result E S A → Option E
  | .ok _ _ => none
  | .error thrown _ => some thrown

/-- The result with its state embedded in another. -/
def outcomeMap (embed : R → S) : Outcome E R → Outcome E S
  | .ok _ state => .ok () (embed state)
  | .error thrown state => .error thrown (embed state)

/-- Continue with a result that was returned. -/
def andThen (result : Outcome E R) (next : R → Outcome E R) : Outcome E R :=
  match result with
  | .ok _ state => next state
  | .error thrown state => .error thrown state

/-- What a program does from one state on. -/
inductive Script (S E : Type) where
  | done
  | throw (thrown : E)
  | write (state : S) (next : Script S E)
  | session (body next : Script S E) (handler : E → Script S E)

namespace Script

/-- The script on a state alone. -/
def eval : Script S E → S → Outcome E S
  | .done, state => .ok () state
  | .throw thrown, state => .error thrown state
  | .write written next, _ => next.eval written
  | .session body next handler, state =>
    match body.eval state with
    | .ok _ reached => next.eval reached
    | .error thrown _ => (handler thrown).eval state

/-- The script on a store. -/
def run : Script S E → UndoStore S → Outcome E (UndoStore S)
  | .done, store => .ok () store
  | .throw thrown, store => .error thrown store
  | .write written next, store => next.run (store.put written)
  | .session body next handler, store =>
    match body.run store.start with
    | .ok _ reached => next.run reached.squash
    | .error thrown reached => (handler thrown).run reached.undo

/-- The number of sessions the script completes itself, those nested in them not
counted. -/
def completed : Script S E → S → Nat
  | .done, _ => 0
  | .throw _, _ => 0
  | .write written next, _ => next.completed written
  | .session body next handler, state =>
    match body.eval state with
    | .ok _ reached => next.completed reached + 1
    | .error thrown _ => (handler thrown).completed state

/-- A script on a part of the state. -/
def onto (embed : R → S) : Script R E → Script S E
  | .done => .done
  | .throw thrown => .throw thrown
  | .write written next => .write (embed written) (next.onto embed)
  | .session body next handler =>
    .session (body.onto embed) (next.onto embed) (fun thrown => (handler thrown).onto embed)

/-- Under an open session a script changes the current state and nothing else. -/
theorem run_open (script : Script S E) (store : UndoStore S) (opened : store.saved ≠ []) :
    script.run store = outcomeMap store.put (script.eval store.current) := by
  induction script generalizing store with
  | done => rfl
  | throw thrown => rfl
  | write written next inductionHypothesis =>
    exact inductionHypothesis (store.put written) opened
  | session body next handler bodyHypothesis nextHypothesis handlerHypothesis =>
    have inner := bodyHypothesis store.start (by simp)
    rw [UndoStore.start_current] at inner
    simp only [run, eval, inner]
    cases body.eval store.current with
    | ok _ reached =>
      simp only [outcomeMap, UndoStore.squash_put_start opened]
      exact nextHypothesis (store.put reached) opened
    | error thrown reached =>
      simp only [outcomeMap, UndoStore.undo_put_start]
      exact handlerHypothesis thrown store opened

/-- Without an open session the completed ones are still counted by the revision. -/
theorem run_closed (script : Script S E) (store : UndoStore S) (closed : store.saved = []) :
    script.run store =
      outcomeMap (store.bump (script.completed store.current)).put
        (script.eval store.current) := by
  induction script generalizing store with
  | done => simp [run, eval, completed, outcomeMap]
  | throw thrown => simp [run, eval, completed, outcomeMap]
  | write written next inductionHypothesis =>
    exact inductionHypothesis (store.put written) closed
  | session body next handler bodyHypothesis nextHypothesis handlerHypothesis =>
    have inner := run_open body store.start (by simp)
    rw [UndoStore.start_current] at inner
    simp only [run, eval, completed, inner]
    cases body.eval store.current with
    | ok _ reached =>
      simp only [outcomeMap, UndoStore.squash_put_start_closed closed]
      have later := nextHypothesis ((store.put reached).bump 1) closed
      rw [later, UndoStore.bump_bump, Nat.add_comm 1]
      rfl
    | error thrown reached =>
      simp only [outcomeMap, UndoStore.undo_put_start]
      exact handlerHypothesis thrown store closed

/-- A script on a part leaves the rest of the state alone. -/
theorem eval_onto (embed : R → S) (script : Script R E) (part : R) :
    (script.onto embed).eval (embed part) = outcomeMap embed (script.eval part) := by
  induction script generalizing part with
  | done => rfl
  | throw thrown => rfl
  | write written next inductionHypothesis => exact inductionHypothesis written
  | session body next handler bodyHypothesis nextHypothesis handlerHypothesis =>
    simp only [onto, eval, bodyHypothesis part]
    cases body.eval part with
    | ok _ reached => exact nextHypothesis reached
    | error thrown reached => exact handlerHypothesis thrown part

end Script

/-- A program: what it does from each state. -/
abbrev Step (S E : Type) := S → Script S E

/-- Programs one after the other on a state alone. -/
def evalAll : List (Step S E) → S → Outcome E S
  | [], state => .ok () state
  | step :: rest, state => andThen ((step state).eval state) (evalAll rest)

/-- Programs one after the other on a store. -/
def runAll : List (Step S E) → UndoStore S → Outcome E (UndoStore S)
  | [], store => .ok () store
  | step :: rest, store => andThen ((step store.current).run store) (runAll rest)

/-- The sessions that programs one after the other complete themselves. -/
def completedAll : List (Step S E) → S → Nat
  | [], _ => 0
  | step :: rest, state =>
    match (step state).eval state with
    | .ok _ reached => (step state).completed state + completedAll rest reached
    | .error _ _ => (step state).completed state

theorem runAll_open (steps : List (Step S E)) (store : UndoStore S) (opened : store.saved ≠ []) :
    runAll steps store = outcomeMap store.put (evalAll steps store.current) := by
  induction steps generalizing store with
  | nil => rfl
  | cons step rest inductionHypothesis =>
    simp only [runAll, evalAll, Script.run_open _ store opened]
    cases (step store.current).eval store.current with
    | ok _ reached => exact inductionHypothesis (store.put reached) opened
    | error thrown reached => rfl

theorem runAll_closed (steps : List (Step S E)) (store : UndoStore S) (closed : store.saved = []) :
    runAll steps store =
      outcomeMap (store.bump (completedAll steps store.current)).put
        (evalAll steps store.current) := by
  induction steps generalizing store with
  | nil => simp [runAll, evalAll, completedAll, outcomeMap]
  | cons step rest inductionHypothesis =>
    simp only [runAll, evalAll, completedAll, Script.run_closed _ store closed]
    cases (step store.current).eval store.current with
    | ok _ reached =>
      have later := inductionHypothesis
        ((store.bump ((step store.current).completed store.current)).put reached) closed
      simp only [outcomeMap, andThen] at later ⊢
      rw [later, UndoStore.bump_put, UndoStore.bump_bump]
      rfl
    | error thrown reached => rfl

theorem evalAll_append (first second : List (Step S E)) (state : S) :
    evalAll (first ++ second) state = andThen (evalAll first state) (evalAll second) := by
  induction first generalizing state with
  | nil => rfl
  | cons step rest inductionHypothesis =>
    simp only [List.cons_append, evalAll]
    cases (step state).eval state with
    | ok _ reached => exact inductionHypothesis reached
    | error thrown reached => rfl

theorem andThen_ok {result : Outcome E R} {next : R → Outcome E R} {reached : R} :
    andThen result next = .ok () reached ↔
      ∃ middle, result = .ok () middle ∧ next middle = .ok () reached := by
  cases result with
  | ok _ middle => simp [andThen]
  | error thrown state => simp [andThen]

theorem evalAll_cons_ok {step : Step S E} {rest : List (Step S E)} {state reached : S} :
    evalAll (step :: rest) state = .ok () reached ↔
      ∃ middle, (step state).eval state = .ok () middle ∧ evalAll rest middle = .ok () reached :=
  andThen_ok

theorem evalAll_append_ok {first second : List (Step S E)} {state reached : S} :
    evalAll (first ++ second) state = .ok () reached ↔
      ∃ middle, evalAll first state = .ok () middle ∧ evalAll second middle = .ok () reached := by
  rw [evalAll_append, andThen_ok]

/-- A program that never changes what `view` shows, even when it throws. -/
def Keeps {V : Type} (view : S → V) (step : Step S E) : Prop :=
  ∀ state, view (left ((step state).eval state)) = view state

theorem evalAll_keeps {V : Type} {view : S → V} {steps : List (Step S E)}
    (keeps : ∀ step ∈ steps, Keeps view step) (state : S) :
    view (left (evalAll steps state)) = view state := by
  induction steps generalizing state with
  | nil => rfl
  | cons step rest inductionHypothesis =>
    have first := keeps step List.mem_cons_self state
    simp only [evalAll]
    cases outcome : (step state).eval state with
    | ok _ reached =>
      rw [outcome] at first
      have later := inductionHypothesis
        (fun other member => keeps other (List.mem_cons_of_mem _ member)) reached
      exact later.trans first
    | error thrown reached =>
      rw [outcome] at first
      exact first

end DeipChain.Snapshots
