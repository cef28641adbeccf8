import Mathlib.Algebra.Ring.Int.Defs
import Mathlib.Algebra.Ring.Nat
import Mathlib.Tactic.Common

/-!
# Computations that can fail

A fallible operation is a value of `Except E`. The laws here read a successful
result backwards: a sequence of steps succeeded only if each step did, a
requirement passed only if it holds, and a loop over a list succeeded only if
every round of it did. The loop rule carries an invariant that may mention the
rounds still to come.
-/
namespace DeipChain.Result

universe u v w
variable {E : Type u} {α β : Type v}

/-- The step that fails with the given error unless a condition holds. -/
def require (condition : Prop) [Decidable condition] (error : E) : Except E PUnit.{v + 1} :=
  if condition then .ok ⟨⟩ else .error error

/-- The value of a lookup, or the given error when there is none. -/
def expect (value : Option α) (error : E) : Except E α :=
  match value with
  | some found => .ok found
  | none => .error error

theorem bind_ok_iff {first : Except E α} {next : α → Except E β} {result : β} :
    (first >>= next) = .ok result ↔ ∃ value, first = .ok value ∧ next value = .ok result := by
  cases first with
  | error error => simp [bind, Except.bind]
  | ok value => simp [bind, Except.bind]

theorem require_ok_iff {condition : Prop} [Decidable condition] {error : E} {result : PUnit} :
    require condition error = .ok result ↔ condition := by
  unfold require
  split <;> simp_all

theorem expect_ok_iff {value : Option α} {error : E} {found : α} :
    expect value error = .ok found ↔ value = some found := by
  cases value <;> simp [expect]

theorem pure_ok_iff {value result : α} :
    (pure value : Except E α) = .ok result ↔ value = result := by
  simp [pure, Except.pure]

/-- A computation succeeds if its first step and what comes after it do. -/
theorem exists_bind {first : Except E α} {next : α → Except E β} {value : α}
    (begun : first = .ok value) (rest : ∃ result, next value = .ok result) :
    ∃ result, (first >>= next) = .ok result := by
  obtain ⟨result, ends⟩ := rest
  exact ⟨result, bind_ok_iff.mpr ⟨value, begun, ends⟩⟩

/-- The result of a computation that succeeds. -/
theorem exists_ok (computation : Except E α) (succeeds : computation.isOk = true) :
    ∃ result, computation = .ok result := by
  cases computation with
  | error error => cases succeeds
  | ok result => exact ⟨result, rfl⟩

/-- The result of a computation that succeeds with a test of it. -/
theorem exists_ok_of_any (computation : Except E α) (test : α → Bool)
    (passes : computation.toOption.any test = true) :
    ∃ result, computation = .ok result ∧ test result = true := by
  cases computation with
  | error error => cases passes
  | ok result => exact ⟨result, rfl, passes⟩

/-- A loop of checks passes when every check does. -/
theorem forM_ok_iff {elements : List α} {check : α → Except E PUnit.{v + 1}} {result : PUnit} :
    elements.forM check = .ok result ↔ ∀ element ∈ elements, check element = .ok ⟨⟩ := by
  induction elements with
  | nil => simp [List.forM, pure, Except.pure]
  | cons element rest hypothesis =>
    rw [List.forM, bind_ok_iff, List.forall_mem_cons]
    simp only [hypothesis]
    constructor
    · rintro ⟨⟨⟩, first, others⟩
      exact ⟨first, others⟩
    · rintro ⟨first, others⟩
      exact ⟨⟨⟩, first, others⟩

/-- A computation that succeeds at every element succeeds on the list. -/
theorem mapM_ok {compute : α → Except E β} {value : α → β} {elements : List α}
    (each : ∀ element ∈ elements, compute element = .ok (value element)) :
    elements.mapM compute = .ok (elements.map value) := by
  induction elements with
  | nil => rfl
  | cons element rest hypothesis =>
    rw [List.forall_mem_cons] at each
    simp [List.mapM_cons, each.1, hypothesis each.2, bind, Except.bind, pure, Except.pure]

/-- Computations that each succeed all succeed. -/
theorem mapM_runs {compute : α → Except E β} {elements : List α}
    (each : ∀ element ∈ elements, ∃ result, compute element = .ok result) :
    ∃ results, elements.mapM compute = .ok results := by
  induction elements with
  | nil => exact ⟨[], rfl⟩
  | cons element rest hypothesis =>
    rw [List.forall_mem_cons] at each
    obtain ⟨result, computed⟩ := each.1
    obtain ⟨results, mapped⟩ := hypothesis each.2
    refine ⟨result :: results, ?_⟩
    rw [List.mapM_cons, computed, mapped]
    rfl

/-- Computations that each succeed under a condition succeed together if all conditions hold. -/
theorem mapM_ok_iff {compute : α → Except E β} {value : α → β} {condition : α → Prop}
    (each : ∀ element result, compute element = .ok result ↔
      condition element ∧ value element = result) {elements : List α} {results : List β} :
    elements.mapM compute = .ok results ↔
      (∀ element ∈ elements, condition element) ∧ elements.map value = results := by
  induction elements generalizing results with
  | nil => simp [pure, Except.pure]
  | cons element rest hypothesis =>
    simp only [List.mapM_cons, bind_ok_iff, pure_ok_iff, each, hypothesis, List.forall_mem_cons,
      List.map_cons]
    constructor
    · rintro ⟨_, ⟨first, rfl⟩, _, ⟨others, rfl⟩, rfl⟩
      exact ⟨⟨first, others⟩, rfl⟩
    · rintro ⟨⟨first, others⟩, rfl⟩
      exact ⟨_, ⟨first, rfl⟩, _, ⟨others, rfl⟩, rfl⟩

/-- A computation that succeeded on a list succeeded at every element. -/
theorem forall₂_of_mapM_ok {compute : α → Except E β} {elements : List α} {results : List β}
    (ran : elements.mapM compute = .ok results) :
    List.Forall₂ (fun element result => compute element = .ok result) elements results := by
  induction elements generalizing results with
  | nil =>
    rw [List.mapM_nil, pure_ok_iff] at ran
    exact ran ▸ List.Forall₂.nil
  | cons element rest hypothesis =>
    simp only [List.mapM_cons, bind_ok_iff, pure_ok_iff] at ran
    obtain ⟨result, computed, others, mapped, rfl⟩ := ran
    exact List.Forall₂.cons computed (hypothesis mapped)

/-- Every element has a result. -/
theorem exists_of_mapM_ok {compute : α → Except E β} {elements : List α} {results : List β}
    (ran : elements.mapM compute = .ok results) {element : α} (member : element ∈ elements) :
    ∃ result, compute element = .ok result := by
  have each := forall₂_of_mapM_ok ran
  clear ran
  induction each with
  | nil => exact absurd member List.not_mem_nil
  | cons computed _ hypothesis =>
    rcases List.mem_cons.mp member with rfl | behind
    · exact ⟨_, computed⟩
    · exact hypothesis behind

/-- Every result comes from an element. -/
theorem exists_of_mem_mapM {compute : α → Except E β} {elements : List α} {results : List β}
    (ran : elements.mapM compute = .ok results) {result : β} (member : result ∈ results) :
    ∃ element ∈ elements, compute element = .ok result := by
  have each := forall₂_of_mapM_ok ran
  clear ran
  induction each with
  | nil => exact absurd member List.not_mem_nil
  | cons computed _ hypothesis =>
    rcases List.mem_cons.mp member with rfl | behind
    · exact ⟨_, List.mem_cons_self, computed⟩
    · obtain ⟨element, listed, found⟩ := hypothesis behind
      exact ⟨element, List.mem_cons_of_mem _ listed, found⟩

/-- A loop that ran through kept every invariant of its rounds. The invariant
    speaks of the state and of the elements that are still to be visited. -/
theorem foldlM_invariant {σ : Type v} {step : σ → α → Except E σ} (motive : List α → σ → Prop)
    (round : ∀ element rest state next, motive (element :: rest) state →
      step state element = .ok next → motive rest next)
    {elements : List α} {start final : σ} (begun : motive elements start)
    (ran : elements.foldlM step start = .ok final) : motive [] final := by
  induction elements generalizing start with
  | nil =>
    rw [List.foldlM_nil, pure_ok_iff] at ran
    exact ran ▸ begun
  | cons element rest hypothesis =>
    rw [List.foldlM_cons, bind_ok_iff] at ran
    obtain ⟨next, stepped, remaining⟩ := ran
    exact hypothesis (round element rest start next begun stepped) remaining

/-- A loop runs through if each of its rounds does, from every state that has the
    invariant, and keeps it. -/
theorem foldlM_runs {σ : Type v} {step : σ → α → Except E σ} {invariant : σ → Prop}
    {elements : List α}
    (round : ∀ element ∈ elements, ∀ state, invariant state →
      ∃ next, step state element = .ok next ∧ invariant next)
    {start : σ} (begun : invariant start) :
    ∃ final, elements.foldlM step start = .ok final ∧ invariant final := by
  induction elements generalizing start with
  | nil => exact ⟨start, rfl, begun⟩
  | cons element rest hypothesis =>
    rw [List.forall_mem_cons] at round
    obtain ⟨next, stepped, kept⟩ := round.1 start begun
    rw [List.foldlM_cons, stepped]
    exact hypothesis round.2 kept

/-- A loop that ran through can be followed by another one whose rounds follow its rounds. -/
theorem foldlM_simulates {σ τ : Type v} {step : σ → α → Except E σ} {other : τ → α → Except E τ}
    (alike : σ → τ → Prop) {elements : List α}
    (round : ∀ element ∈ elements, ∀ state follower next, alike state follower →
      step state element = .ok next → ∃ after, other follower element = .ok after ∧ alike next after)
    {start final : σ} {follower : τ} (begun : alike start follower)
    (ran : elements.foldlM step start = .ok final) :
    ∃ after, elements.foldlM other follower = .ok after ∧ alike final after := by
  induction elements generalizing start follower with
  | nil =>
    rw [List.foldlM_nil, pure_ok_iff] at ran
    exact ⟨follower, rfl, ran ▸ begun⟩
  | cons element rest hypothesis =>
    rw [List.foldlM_cons, bind_ok_iff] at ran
    obtain ⟨next, stepped, remaining⟩ := ran
    rw [List.forall_mem_cons] at round
    obtain ⟨after, follows, still⟩ := round.1 start follower next begun stepped
    obtain ⟨last, later, ends⟩ := hypothesis round.2 still remaining
    refine ⟨last, ?_, ends⟩
    rw [List.foldlM_cons, follows]
    exact later

/-- What a loop throws, one of its rounds throws. -/
theorem foldlM_error {σ : Type v} {step : σ → α → Except E σ} {elements : List α} {start : σ}
    {error : E} (threw : elements.foldlM step start = .error error) :
    ∃ element ∈ elements, ∃ state, step state element = .error error := by
  induction elements generalizing start with
  | nil => cases threw
  | cons element rest hypothesis =>
    rw [List.foldlM_cons] at threw
    cases stepped : step start element with
    | error other =>
      rw [stepped] at threw
      cases threw
      exact ⟨element, List.mem_cons_self, start, stepped⟩
    | ok next =>
      rw [stepped] at threw
      obtain ⟨later, member, state, failed⟩ := hypothesis threw
      exact ⟨later, List.mem_cons_of_mem _ member, state, failed⟩

/-- A condition on each round of a loop, in the state that the round starts from. -/
def Along {σ : Type v} (step : σ → α → Except E σ) (fits : σ → α → Prop) : σ → List α → Prop
  | _, [] => True
  | state, element :: rest => fits state element ∧
    ∀ next, step state element = .ok next → Along step fits next rest

/-- A condition on the elements alone. -/
theorem Along.of_forall {σ : Type v} {step : σ → α → Except E σ} {fits : σ → α → Prop}
    {elements : List α} (all : ∀ element ∈ elements, ∀ state, fits state element) (state : σ) :
    Along step fits state elements := by
  induction elements generalizing state with
  | nil => trivial
  | cons element rest hypothesis =>
    rw [List.forall_mem_cons] at all
    exact ⟨all.1 state, fun next _ => hypothesis all.2 next⟩

/-- The rounds of a loop pass a test, each in the state that it starts from. -/
def passes {σ : Type v} (step : σ → α → Except E σ) (test : σ → α → Bool) : σ → List α → Bool
  | _, [] => true
  | state, element :: rest => test state element &&
    (step state element).toOption.all fun next => passes step test next rest

theorem Along.of_passes {σ : Type v} {step : σ → α → Except E σ} {fits : σ → α → Prop}
    {test : σ → α → Bool} (implies : ∀ state element, test state element = true → fits state element)
    {elements : List α} {state : σ} (tested : passes step test state elements = true) :
    Along step fits state elements := by
  induction elements generalizing state with
  | nil => trivial
  | cons element rest hypothesis =>
    rw [passes, Bool.and_eq_true] at tested
    refine ⟨implies state element tested.1, fun next stepped => hypothesis ?_⟩
    simpa [stepped, Except.toOption] using tested.2

theorem Along.mono {σ : Type v} {step : σ → α → Except E σ} {fits meets : σ → α → Prop}
    (implies : ∀ state element, fits state element → meets state element) {elements : List α}
    {state : σ} (along : Along step fits state elements) : Along step meets state elements := by
  induction elements generalizing state with
  | nil => trivial
  | cons element rest hypothesis =>
    exact ⟨implies state element along.1, fun next stepped => hypothesis (along.2 next stepped)⟩

/-- A loop keeps what its rounds keep as long as each of them meets a condition. -/
theorem foldlM_along {σ : Type v} {step : σ → α → Except E σ} {fits : σ → α → Prop}
    (invariant : σ → Prop)
    (round : ∀ element state next, fits state element → invariant state →
      step state element = .ok next → invariant next)
    {elements : List α} {start final : σ} (along : Along step fits start elements)
    (begun : invariant start) (ran : elements.foldlM step start = .ok final) : invariant final := by
  refine (foldlM_invariant (fun rest state => Along step fits state rest ∧ invariant state) ?_
    ⟨along, begun⟩ ran).2
  rintro element rest state next ⟨⟨meets, later⟩, before⟩ stepped
  exact ⟨later next stepped, round element state next meets before stepped⟩

/-- A property of every state that a loop comes through. -/
def Visits {σ : Type v} (step : σ → α → Except E σ) (holds : σ → Prop) : σ → List α → Prop
  | state, [] => holds state
  | state, element :: rest => holds state ∧
    ∀ next, step state element = .ok next → Visits step holds next rest

theorem Visits.start {σ : Type v} {step : σ → α → Except E σ} {holds : σ → Prop} {state : σ}
    {elements : List α} (visits : Visits step holds state elements) : holds state := by
  cases elements with
  | nil => exact visits
  | cons element rest => exact visits.1

/-- A loop comes only through states with a property exactly if its rounds meet a condition,
    when from a good state the condition is what a round needs to end in a good state. -/
theorem visits_iff_along {σ : Type v} {step : σ → α → Except E σ} {fits : σ → α → Prop}
    {holds : σ → Prop} (good : σ → Prop) (sound : ∀ state, good state → holds state)
    (round : ∀ element state, good state →
      (fits state element ↔ ∀ next, step state element = .ok next → holds next))
    (kept : ∀ element state next, good state → step state element = .ok next → holds next → good next)
    (elements : List α) (state : σ) (begun : good state) :
    Visits step holds state elements ↔ Along step fits state elements := by
  induction elements generalizing state with
  | nil => exact ⟨fun _ => trivial, fun _ => sound state begun⟩
  | cons element rest hypothesis =>
    constructor
    · rintro ⟨_, later⟩
      refine ⟨(round element state begun).mpr fun next stepped => (later next stepped).start, ?_⟩
      intro next stepped
      have after := later next stepped
      exact (hypothesis next (kept element state next begun stepped after.start)).mp after
    · rintro ⟨meets, later⟩
      refine ⟨sound state begun, fun next stepped => ?_⟩
      have after := (round element state begun).mp meets next stepped
      exact (hypothesis next (kept element state next begun stepped after)).mpr (later next stepped)

/-- The same for a loop that ran through, where only the rounds that succeed matter. -/
theorem visits_iff_along_ran {σ : Type v} {step : σ → α → Except E σ} {fits : σ → α → Prop}
    {holds : σ → Prop}
    (round : ∀ element state next, holds state → step state element = .ok next →
      (fits state element ↔ holds next))
    {elements : List α} {start final : σ} (begun : holds start)
    (ran : elements.foldlM step start = .ok final) :
    Visits step holds start elements ↔ Along step fits start elements := by
  induction elements generalizing start with
  | nil => exact ⟨fun _ => trivial, fun _ => begun⟩
  | cons element rest hypothesis =>
    rw [List.foldlM_cons, bind_ok_iff] at ran
    obtain ⟨next, stepped, remaining⟩ := ran
    have only : ∀ other, step start element = .ok other → other = next := by
      intro other reached
      exact Except.ok.inj (reached.symm.trans stepped)
    constructor
    · rintro ⟨_, later⟩
      have after := later next stepped
      refine ⟨(round element start next begun stepped).mpr after.start, ?_⟩
      intro other reached
      rw [only other reached]
      exact (hypothesis after.start remaining).mp after
    · rintro ⟨meets, later⟩
      have good := (round element start next begun stepped).mp meets
      refine ⟨begun, ?_⟩
      intro other reached
      rw [only other reached]
      exact (hypothesis good remaining).mpr (later next stepped)

/-- Two conditions on the rounds of a loop that ran through are the same if they agree wherever
    an invariant holds. -/
theorem along_iff_of_ran {σ : Type v} {step : σ → α → Except E σ} {fits meets within : σ → α → Prop}
    (invariant : σ → Prop)
    (round : ∀ element state next, invariant state → within state element →
      step state element = .ok next → (fits state element ↔ meets state element) ∧ invariant next)
    {elements : List α} {start final : σ} (begun : invariant start)
    (allowed : Along step within start elements) (ran : elements.foldlM step start = .ok final) :
    Along step fits start elements ↔ Along step meets start elements := by
  induction elements generalizing start with
  | nil => exact Iff.rfl
  | cons element rest hypothesis =>
    rw [List.foldlM_cons, bind_ok_iff] at ran
    obtain ⟨next, stepped, remaining⟩ := ran
    obtain ⟨same, after⟩ := round element start next begun allowed.1 stepped
    have later := hypothesis after (allowed.2 next stepped) remaining
    rw [Along, Along, same]
    refine and_congr_right fun _ => ?_
    simp only [stepped, Except.ok.injEq, forall_eq']
    exact later

/-! ## What a computation ends in -/

/-- The result has a property, if there is a result. -/
def Ends (holds : α → Prop) (computation : Except E α) : Prop :=
  ∀ result, computation = .ok result → holds result

namespace Ends

variable {holds : α → Prop}

theorem pure {result : α} (good : holds result) : Ends holds (Pure.pure result : Except E α) := by
  intro other equal
  exact pure_ok_iff.mp equal ▸ good

theorem throw {error : E} : Ends holds (MonadExcept.throw error : Except E α) := by
  intro result raised
  cases raised

/-- Steps before the last one. -/
theorem bind {first : Except E β} {next : β → Except E α}
    (later : ∀ value, first = .ok value → Ends holds (next value)) :
    Ends holds (first >>= next) := by
  intro result ran
  obtain ⟨value, begun, rest⟩ := bind_ok_iff.mp ran
  exact later value begun result rest

theorem ite {condition : Prop} [Decidable condition] {first second : Except E α}
    (accepted : condition → Ends holds first) (refused : ¬ condition → Ends holds second) :
    Ends holds (if condition then first else second) := by
  by_cases decided : condition
  · rw [if_pos decided]
    exact accepted decided
  · rw [if_neg decided]
    exact refused decided

/-- A loop whose rounds keep a property. -/
theorem foldlM {step : α → β → Except E α}
    (round : ∀ state element, holds state → Ends holds (step state element))
    {elements : List β} {start : α} (begun : holds start) :
    Ends holds (elements.foldlM step start) := by
  induction elements generalizing start with
  | nil => exact pure begun
  | cons element rest hypothesis =>
    rw [List.foldlM_cons]
    exact bind fun next stepped => hypothesis (round start element begun next stepped)

end Ends

/-- A field of the result has a given value, if there is a result. -/
def Leaves {κ : Type w} (field : α → κ) (value : κ) (computation : Except E α) : Prop :=
  ∀ result, computation = .ok result → field result = value

namespace Leaves

variable {κ : Type w} {field : α → κ} {kept : κ}

theorem pure {result : α} (same : field result = kept) :
    Leaves field kept (Pure.pure result : Except E α) :=
  Ends.pure same

/-- Steps before the last one. -/
theorem bind {first : Except E β} {next : β → Except E α}
    (later : ∀ value, first = .ok value → Leaves field kept (next value)) :
    Leaves field kept (first >>= next) :=
  Ends.bind later

end Leaves

end DeipChain.Result
