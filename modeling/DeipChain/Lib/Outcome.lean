import Mathlib.Algebra.Ring.Int.Defs
import Mathlib.Algebra.Ring.Nat
import Mathlib.Tactic.Common

/-!
# Calls that end in one of several ways

A call that works on a state returns, throws, reaches a point from which its behaviour is
not defined, or has not ended within the rounds it was given; the state is there in each case. The
rules here are for what comes after a call that returns and for loops over a list: what
holds of the state after every call that returns holds after the sequence and the loop.
-/
namespace DeipChain

universe u v w

/-- How a call ends, and the state it leaves. -/
inductive Outcome (E : Type u) (S : Type v) where
  | returned (state : S)
  | thrown (error : E) (state : S)
  | undefined (state : S)
  | unfinished (state : S)

namespace Outcome

variable {E : Type u} {S : Type v} {A : Type w}

/-- The state at the end. -/
def state : Outcome E S → S
  | .returned state => state
  | .thrown _ state => state
  | .undefined state => state
  | .unfinished state => state

/-- What comes after a call that returns. -/
def andThen (outcome : Outcome E S) (next : S → Outcome E S) : Outcome E S :=
  match outcome with
  | .returned state => next state
  | .thrown error state => .thrown error state
  | .undefined state => .undefined state
  | .unfinished state => .unfinished state

/-- A loop over a list, whose rounds know what is still to come. -/
def each (round : List A → S → A → Outcome E S) (state : S) : List A → Outcome E S
  | [] => .returned state
  | element :: behind => (round behind state element).andThen (fun next => each round next behind)

/-- What holds of the state if the call returns. -/
def Ensures (post : S → Prop) : Outcome E S → Prop
  | .returned state => post state
  | _ => True

/-- What holds of the state if the call returns or throws. -/
def Ends (post : S → Prop) : Outcome E S → Prop
  | .returned state => post state
  | .thrown _ state => post state
  | _ => True

/-- The call returns or throws, with what then holds of the state. -/
def Concludes (post : S → Prop) : Outcome E S → Prop
  | .returned state => post state
  | .thrown _ state => post state
  | _ => False

@[simp] theorem andThen_returned (state : S) (next : S → Outcome E S) :
    (returned state).andThen next = next state := rfl

@[simp] theorem andThen_thrown (error : E) (state : S) (next : S → Outcome E S) :
    (thrown error state).andThen next = thrown error state := rfl

@[simp] theorem andThen_undefined (state : S) (next : S → Outcome E S) :
    (undefined state).andThen next = undefined state := rfl

@[simp] theorem andThen_unfinished (state : S) (next : S → Outcome E S) :
    (unfinished state).andThen next = unfinished state := rfl

@[simp] theorem each_nil (round : List A → S → A → Outcome E S) (state : S) :
    each round state [] = .returned state := rfl

@[simp] theorem each_cons (round : List A → S → A → Outcome E S) (state : S) (element : A)
    (behind : List A) : each round state (element :: behind) =
      (round behind state element).andThen (fun next => each round next behind) := rfl

theorem andThen_returned_iff {outcome : Outcome E S} {next : S → Outcome E S} {final : S} :
    outcome.andThen next = .returned final ↔
      ∃ state, outcome = .returned state ∧ next state = .returned final := by
  cases outcome <;> simp

theorem ensures_iff {outcome : Outcome E S} {post : S → Prop} :
    outcome.Ensures post ↔ ∀ state, outcome = .returned state → post state := by
  cases outcome <;> simp [Ensures]

instance decidableEnsures {post : S → Prop} [DecidablePred post] (outcome : Outcome E S) :
    Decidable (outcome.Ensures post) :=
  match outcome with
  | .returned state => inferInstanceAs (Decidable (post state))
  | .thrown _ _ => .isTrue trivial
  | .undefined _ => .isTrue trivial
  | .unfinished _ => .isTrue trivial

theorem Ensures.mono {outcome : Outcome E S} {post other : S → Prop}
    (ensures : outcome.Ensures post) (implies : ∀ state, post state → other state) :
    outcome.Ensures other := by
  cases outcome with
  | returned state => exact implies state ensures
  | thrown => trivial
  | undefined => trivial
  | unfinished => trivial

theorem Ensures.andThen {outcome : Outcome E S} {next : S → Outcome E S} {mid post : S → Prop}
    (first : outcome.Ensures mid) (second : ∀ state, mid state → (next state).Ensures post) :
    (outcome.andThen next).Ensures post := by
  cases outcome with
  | returned state => exact second state first
  | thrown => trivial
  | undefined => trivial
  | unfinished => trivial

theorem Ends.mono {outcome : Outcome E S} {post other : S → Prop} (ends : outcome.Ends post)
    (implies : ∀ state, post state → other state) : outcome.Ends other := by
  cases outcome with
  | returned state => exact implies state ends
  | thrown _ state => exact implies state ends
  | undefined => trivial
  | unfinished => trivial

theorem Ends.andThen {outcome : Outcome E S} {next : S → Outcome E S} {mid post : S → Prop}
    (first : outcome.Ends mid) (throws : ∀ state, mid state → post state)
    (second : ∀ state, mid state → (next state).Ends post) : (outcome.andThen next).Ends post := by
  cases outcome with
  | returned state => exact second state first
  | thrown _ state => exact throws state first
  | undefined => trivial
  | unfinished => trivial

theorem Ends.of_state {outcome : Outcome E S} {post : S → Prop} (holds : post outcome.state) :
    outcome.Ends post := by
  cases outcome with
  | returned state => exact holds
  | thrown _ state => exact holds
  | undefined => trivial
  | unfinished => trivial

theorem Ends.and {outcome : Outcome E S} {post other : S → Prop} (first : outcome.Ends post)
    (second : outcome.Ends other) : outcome.Ends (fun state => post state ∧ other state) := by
  cases outcome with
  | returned state => exact ⟨first, second⟩
  | thrown _ state => exact ⟨first, second⟩
  | undefined => trivial
  | unfinished => trivial

theorem Concludes.mono {outcome : Outcome E S} {post other : S → Prop}
    (concludes : outcome.Concludes post) (implies : ∀ state, post state → other state) :
    outcome.Concludes other := by
  cases outcome with
  | returned state => exact implies state concludes
  | thrown _ state => exact implies state concludes
  | undefined => exact concludes
  | unfinished => exact concludes

theorem Concludes.and {outcome : Outcome E S} {post other : S → Prop}
    (concludes : outcome.Concludes post) (ends : outcome.Ends other) :
    outcome.Concludes (fun state => post state ∧ other state) := by
  cases outcome with
  | returned state => exact ⟨concludes, ends⟩
  | thrown _ state => exact ⟨concludes, ends⟩
  | undefined => exact concludes
  | unfinished => exact concludes

theorem Concludes.andThen {outcome : Outcome E S} {next : S → Outcome E S} {mid post : S → Prop}
    (first : outcome.Concludes mid) (throws : ∀ state, mid state → post state)
    (second : ∀ state, outcome = .returned state → mid state → (next state).Concludes post) :
    (outcome.andThen next).Concludes post := by
  cases outcome with
  | returned state => exact second state rfl first
  | thrown _ state => exact throws state first
  | undefined => exact first
  | unfinished => exact first

/-- A call that returns a state that passes a test. -/
def returnsWith (test : S → Bool) : Outcome E S → Bool
  | .returned state => test state
  | _ => false

theorem exists_returned {outcome : Outcome E S} {test : S → Bool}
    (passes : outcome.returnsWith test = true) :
    ∃ state, outcome = .returned state ∧ test state = true := by
  cases outcome with
  | returned state => exact ⟨state, rfl, passes⟩
  | thrown => cases passes
  | undefined => cases passes
  | unfinished => cases passes

/-- A call whose behaviour is not defined. -/
def isUndefined : Outcome E S → Bool
  | .undefined _ => true
  | _ => false

theorem exists_undefined {outcome : Outcome E S} (lost : outcome.isUndefined = true) :
    ∃ state, outcome = .undefined state := by
  cases outcome with
  | returned => cases lost
  | thrown => cases lost
  | undefined state => exact ⟨state, rfl⟩
  | unfinished => cases lost

/-- A loop keeps what its rounds keep. -/
theorem each_ensures {round : List A → S → A → Outcome E S} {invariant : S → Prop}
    {elements : List A} (kept : ∀ behind element state, element ∈ elements → invariant state →
      (round behind state element).Ensures invariant)
    {state : S} (begun : invariant state) : (each round state elements).Ensures invariant := by
  induction elements generalizing state with
  | nil => exact begun
  | cons element behind hypothesis =>
    rw [each_cons]
    refine Ensures.andThen (kept behind element state List.mem_cons_self begun) ?_
    intro next after
    exact hypothesis (fun rest other reached member =>
      kept rest other reached (List.mem_cons_of_mem element member)) after

theorem each_ends {round : List A → S → A → Outcome E S} {invariant : S → Prop}
    {elements : List A} (kept : ∀ behind element state, invariant state →
      (round behind state element).Ends invariant)
    {state : S} (begun : invariant state) : (each round state elements).Ends invariant := by
  induction elements generalizing state with
  | nil => exact begun
  | cons element behind hypothesis =>
    exact (kept behind element state begun).andThen (fun _ still => still)
      (fun _ still => hypothesis still)

end Outcome

end DeipChain
