import DeipChain.Lib.OrderedMap
import DeipChain.Lib.Table
import Mathlib.Data.List.Induction

/-!
# Expertise contributions

A contribution of a research content to a discipline keeps what its reviews have scored by
criterion, and what its expertise has changed by in the block. The first difference creates it,
and further ones modify it, in two pieces of code. Creation takes the expertise itself as the
change of the block, and modification keeps the first score of each criterion.
-/
namespace DeipChain.Expertise

open Std OrderedMap Table

/-- `DEIP_MAX_REVIEW_CRITERIA_SCORE` -/
def maxReviewCriteriaScore : Int := 5

/-- `eci_diff` -/
structure EciDiff where
  old : Int
  new : Int
  timestamp : Nat
  contributionType : Nat
  contributionId : Int
  assessmentCriterias : ExtTreeMap Nat Int
deriving DecidableEq

namespace EciDiff

def current (diff : EciDiff) : Int := diff.new

def previous (diff : EciDiff) : Int := diff.old

def diff (diff : EciDiff) : Int := diff.new - diff.old

def isIncreased (diff : EciDiff) : Bool := decide (0 < diff.diff)

/-- The signed score of a criterion that is assessed with a value. -/
def score (diff : EciDiff) (value : Int) : Int :=
  if diff.isIncreased then value else -(maxReviewCriteriaScore - value)

end EciDiff

/-- `expertise_contribution_object` -/
structure ExpertiseContribution where
  disciplineId : Nat
  researchId : Nat
  researchContentId : Nat
  eci : Int
  hasEciCurrentBlockDiffs : Bool
  eciCurrentBlockDelta : Int
  eciCurrentBlockDiffs : List EciDiff
  assessmentCriterias : ExtTreeMap Nat Int
deriving DecidableEq

namespace ExpertiseContribution

/-- The key of `by_research_content_and_discipline`. -/
def key (contribution : ExpertiseContribution) : Nat × Nat :=
  (contribution.researchContentId, contribution.disciplineId)

/-- The contribution after a difference. A criterion that is there already is not inserted. -/
def modified (diff : EciDiff) (contribution : ExpertiseContribution) : ExpertiseContribution :=
  { contribution with
    eciCurrentBlockDelta := contribution.eciCurrentBlockDelta + diff.diff
    eci := diff.current
    eciCurrentBlockDiffs := contribution.eciCurrentBlockDiffs ++ [diff]
    hasEciCurrentBlockDiffs := true
    assessmentCriterias := diff.assessmentCriterias.toList.foldl
      (fun criterias criteria => criterias.insertIfNew criteria.1 (diff.score criteria.2))
      contribution.assessmentCriterias }

/-- The contribution that a difference creates. -/
def created (disciplineId researchId researchContentId : Nat) (diff : EciDiff) :
    ExpertiseContribution where
  disciplineId := disciplineId
  researchId := researchId
  researchContentId := researchContentId
  eci := diff.current
  hasEciCurrentBlockDiffs := true
  eciCurrentBlockDelta := diff.current
  eciCurrentBlockDiffs := [diff]
  assessmentCriterias := diff.assessmentCriterias.toList.foldl
    (fun criterias criteria =>
      match criterias[criteria.1]? with
      | some total => criterias.insert criteria.1 (total + diff.score criteria.2)
      | none => criterias.insertIfNew criteria.1 (diff.score criteria.2)) ∅

/-- `distribute_reward` leaves no differences of the block. -/
def distributed (contribution : ExpertiseContribution) : ExpertiseContribution :=
  if contribution.hasEciCurrentBlockDiffs then
    { contribution with
      eciCurrentBlockDelta := 0
      eciCurrentBlockDiffs := []
      hasEciCurrentBlockDiffs := false }
  else contribution

end ExpertiseContribution

/-- `adjust_expertise_contribution` -/
def adjustExpertiseContribution (contributions : List ExpertiseContribution)
    (disciplineId researchId researchContentId : Nat) (diff : EciDiff) :
    List ExpertiseContribution :=
  let exists_ := contributions.any fun contribution =>
    contribution.key == (researchContentId, disciplineId)
  if exists_ then
    modifyFirst (fun contribution => contribution.key == (researchContentId, disciplineId))
      (ExpertiseContribution.modified diff) contributions
  else
    contributions ++ [ExpertiseContribution.created disciplineId researchId researchContentId diff]

/-! ## Runs -/

/-- What happens to the contributions. -/
inductive Event where
  | adjusted (disciplineId researchId researchContentId : Nat) (diff : EciDiff)
  | distributed

namespace Event

def apply (contributions : List ExpertiseContribution) : Event → List ExpertiseContribution
  | adjusted disciplineId researchId researchContentId diff =>
    adjustExpertiseContribution contributions disciplineId researchId researchContentId diff
  | distributed => contributions.map ExpertiseContribution.distributed

/-- The difference that an event makes to the contribution with a key. -/
def differenceFor (key : Nat × Nat) : Event → List EciDiff
  | adjusted disciplineId _ researchContentId diff =>
    if (researchContentId, disciplineId) = key then [diff] else []
  | distributed => []

/-- The differences since the last distribution. -/
def recentFor (key : Nat × Nat) (recent : List EciDiff) : Event → List EciDiff
  | distributed => []
  | event => recent ++ event.differenceFor key

end Event

/-- The contributions after some events. -/
def contributionsAfter (events : List Event) : List ExpertiseContribution :=
  events.foldl Event.apply []

def contributionOf (key : Nat × Nat) (contributions : List ExpertiseContribution) :
    Option ExpertiseContribution :=
  contributions.find? fun contribution => contribution.key == key

/-- All differences to the contribution with a key. -/
def differences (key : Nat × Nat) (events : List Event) : List EciDiff :=
  events.flatMap (Event.differenceFor key)

/-- Those since the last distribution. -/
def recentDifferences (key : Nat × Nat) (events : List Event) : List EciDiff :=
  events.foldl (Event.recentFor key) []

/-- The signed scores of a criterion in some differences. -/
def mentions (criterion : Nat) (diffs : List EciDiff) : List Int :=
  diffs.filterMap fun diff => diff.assessmentCriterias[criterion]?.map diff.score

/-- What a contribution should have accumulated. -/
structure Accumulated (key : Nat × Nat) (events : List Event) (contribution : ExpertiseContribution) :
    Prop where
  criterias : ∀ criterion, contribution.assessmentCriterias[criterion]? =
    if mentions criterion (differences key events) = [] then none
    else some (mentions criterion (differences key events)).sum
  delta : contribution.eciCurrentBlockDelta =
    ((recentDifferences key events).map EciDiff.diff).sum

/-- The differences of which the two pieces of code keep the sums: the scores of a criterion behind
    the first one cancel out, and a contribution that was created in the block began at zero. -/
structure SumsUp (differences recent : List EciDiff) : Prop where
  scores : ∀ criterion, (mentions criterion differences).tail.sum = 0
  fresh : recent = differences → ∀ first, differences.head? = some first → first.previous = 0

/-! ## What the two pieces of code keep -/

theorem mentions_append (criterion : Nat) (first second : List EciDiff) :
    mentions criterion (first ++ second) = mentions criterion first ++ mentions criterion second :=
  List.filterMap_append

theorem mentions_singleton (criterion : Nat) (diff : EciDiff) :
    mentions criterion [diff] = (diff.assessmentCriterias[criterion]?.map diff.score).toList := by
  rw [mentions, List.filterMap_cons, List.filterMap_nil]
  cases diff.assessmentCriterias[criterion]? with
  | none => rfl
  | some value => rfl

theorem ExpertiseContribution.modified_criterias (diff : EciDiff)
    (contribution : ExpertiseContribution) (criterion : Nat) :
    (contribution.modified diff).assessmentCriterias[criterion]? =
      contribution.assessmentCriterias[criterion]?.or
        (diff.assessmentCriterias[criterion]?.map diff.score) :=
  lookup_insertAllIfNew diff.score diff.assessmentCriterias contribution.assessmentCriterias criterion

/-- The criterias of one difference are distinct, so none of them is added to another one. -/
theorem created_foldl (diff : EciDiff) (pairs : List (Nat × Int)) (criterias : ExtTreeMap Nat Int)
    (distinct : pairs.Pairwise fun one two => one.1 ≠ two.1)
    (fresh : ∀ pair ∈ pairs, criterias[pair.1]? = none) :
    pairs.foldl (fun criterias criteria =>
      match criterias[criteria.1]? with
      | some total => criterias.insert criteria.1 (total + diff.score criteria.2)
      | none => criterias.insertIfNew criteria.1 (diff.score criteria.2)) criterias =
    pairs.foldl (fun criterias criteria =>
      criterias.insertIfNew criteria.1 (diff.score criteria.2)) criterias := by
  induction pairs generalizing criterias with
  | nil => rfl
  | cons pair rest hypothesis =>
    rw [List.pairwise_cons] at distinct
    rw [List.forall_mem_cons] at fresh
    rw [List.foldl_cons, List.foldl_cons, fresh.1]
    refine hypothesis _ distinct.2 fun other member => ?_
    rw [insertIfNew_fresh fresh.1, lookup_insert, if_neg (distinct.1 other member)]
    exact fresh.2 other member

theorem ExpertiseContribution.created_criterias (disciplineId researchId researchContentId : Nat)
    (diff : EciDiff) (criterion : Nat) :
    (created disciplineId researchId researchContentId diff).assessmentCriterias[criterion]? =
      diff.assessmentCriterias[criterion]?.map diff.score := by
  have distinct : diff.assessmentCriterias.toList.Pairwise fun one two => one.1 ≠ two.1 :=
    ExtTreeMap.distinct_keys_toList.imp fun apart => by simpa using apart
  have same := created_foldl diff diff.assessmentCriterias.toList ∅ distinct
    fun _ _ => ExtTreeMap.getElem?_empty
  rw [created]
  dsimp only
  rw [same, lookup_insertAllIfNew diff.score diff.assessmentCriterias ∅ criterion,
    ExtTreeMap.getElem?_empty, Option.none_or]

/-- What the code makes of the differences to a contribution, all of them and those of the block:
    the first score of each criterion, and the sum of the changes since an expertise of zero. -/
structure Keeps (all recent : List EciDiff) (contribution : ExpertiseContribution) : Prop where
  some_ : all ≠ []
  criterias : ∀ criterion, contribution.assessmentCriterias[criterion]? = (mentions criterion all).head?
  delta : contribution.eciCurrentBlockDelta = (recent.map EciDiff.diff).sum +
    if recent = all then (all.head?.map EciDiff.previous).getD 0 else 0
  idle : contribution.hasEciCurrentBlockDiffs = false → recent = []

section Steps

variable {all recent : List EciDiff} {contribution : ExpertiseContribution}

theorem Keeps.created (disciplineId researchId researchContentId : Nat) (diff : EciDiff) :
    Keeps [diff] [diff]
      (ExpertiseContribution.created disciplineId researchId researchContentId diff) where
  some_ := List.cons_ne_nil _ _
  criterias criterion := by
    rw [ExpertiseContribution.created_criterias, mentions_singleton]
    cases diff.assessmentCriterias[criterion]?.map diff.score with
    | none => rfl
    | some value => rfl
  delta := by
    rw [if_pos rfl]
    simp [ExpertiseContribution.created, EciDiff.current, EciDiff.diff, EciDiff.previous]
  idle none := by cases none

theorem Keeps.modified (keeps : Keeps all recent contribution) (diff : EciDiff) :
    Keeps (all ++ [diff]) (recent ++ [diff]) (contribution.modified diff) where
  some_ := by simp
  criterias criterion := by
    rw [ExpertiseContribution.modified_criterias, keeps.criterias, mentions_append,
      mentions_singleton, List.head?_append]
    cases diff.assessmentCriterias[criterion]?.map diff.score with
    | none => rfl
    | some value => rfl
  delta := by
    have first : (all ++ [diff]).head? = all.head? := by
      cases all with
      | nil => exact absurd rfl keeps.some_
      | cons first rest => rfl
    have before := keeps.delta
    rw [first, List.map_append, List.sum_append]
    simp only [List.append_left_inj, ExpertiseContribution.modified, List.map_cons, List.map_nil,
      List.sum_singleton]
    omega
  idle none := by cases none

theorem Keeps.distributed (keeps : Keeps all recent contribution) :
    Keeps all [] contribution.distributed := by
  have apart : ¬ [] = all := fun none => keeps.some_ none.symm
  rw [ExpertiseContribution.distributed]
  by_cases altered : contribution.hasEciCurrentBlockDiffs = true
  · rw [if_pos altered]
    refine ⟨keeps.some_, keeps.criterias, ?_, fun _ => rfl⟩
    rw [if_neg apart]
    rfl
  · rw [if_neg altered]
    have none := keeps.idle (Bool.not_eq_true _ ▸ altered)
    have delta := keeps.delta
    rw [none] at delta
    exact ⟨keeps.some_, keeps.criterias, delta, fun _ => rfl⟩

end Steps

/-! ## What a run keeps -/

variable {contributions : List ExpertiseContribution} {key : Nat × Nat}

theorem ExpertiseContribution.modified_key (diff : EciDiff) (contribution : ExpertiseContribution) :
    (contribution.modified diff).key = contribution.key := rfl

theorem ExpertiseContribution.distributed_key (contribution : ExpertiseContribution) :
    contribution.distributed.key = contribution.key := by
  rw [distributed]
  split <;> rfl

/-- An adjustment shows in the contribution of its key. -/
theorem contributionOf_adjust (disciplineId researchId researchContentId : Nat) (diff : EciDiff) :
    contributionOf key
        (adjustExpertiseContribution contributions disciplineId researchId researchContentId diff) =
      if (researchContentId, disciplineId) = key then
        some (((contributionOf key contributions).map (ExpertiseContribution.modified diff)).getD
          (ExpertiseContribution.created disciplineId researchId researchContentId diff))
      else contributionOf key contributions := by
  rw [adjustExpertiseContribution]
  by_cases known : (contributions.any fun contribution =>
      contribution.key == (researchContentId, disciplineId)) = true
  · rw [if_pos known]
    by_cases own : (researchContentId, disciplineId) = key
    · subst own
      obtain ⟨contribution, found⟩ := Option.isSome_iff_exists.mp
        (List.find?_isSome.mpr (List.any_eq_true.mp known))
      have carries : (contribution.key == (researchContentId, disciplineId)) = true := by
        simpa using List.find?_some found
      rw [if_pos rfl, contributionOf, contributionOf, found,
        find?_modifyFirst found (by rwa [ExpertiseContribution.modified_key])]
      rfl
    · rw [if_neg own, contributionOf, contributionOf]
      refine find?_modifyFirst_apart (fun row hit => ?_) contributions
      rw [ExpertiseContribution.modified_key, beq_iff_eq.mp hit]
      simpa using own
  · rw [if_neg known, contributionOf, List.find?_append]
    rw [Bool.not_eq_true, List.any_eq_false] at known
    by_cases own : (researchContentId, disciplineId) = key
    · subst own
      have none : contributionOf (researchContentId, disciplineId) contributions = none :=
        List.find?_eq_none.mpr known
      rw [if_pos rfl, none]
      change (contributionOf _ contributions).or _ = _
      rw [none]
      simp [ExpertiseContribution.created, ExpertiseContribution.key]
    · have other : ((ExpertiseContribution.created disciplineId researchId researchContentId diff).key
          == key) = false := by simpa [ExpertiseContribution.created, ExpertiseContribution.key] using own
      rw [if_neg own, List.find?_cons, other, List.find?_nil, Option.or_none]
      rfl

theorem contributionOf_distributed :
    contributionOf key (contributions.map ExpertiseContribution.distributed) =
      (contributionOf key contributions).map ExpertiseContribution.distributed := by
  have same : ((fun contribution : ExpertiseContribution => contribution.key == key) ∘
      ExpertiseContribution.distributed) = fun contribution => contribution.key == key := by
    funext contribution
    rw [Function.comp, ExpertiseContribution.distributed_key]
  rw [contributionOf, List.find?_map, same]
  rfl

/-- A run keeps, for each key, no contribution before the first difference to it, and afterwards
one with what the code makes of the differences. -/
theorem contributionsAfter_keeps (key : Nat × Nat) (events : List Event) :
    match contributionOf key (contributionsAfter events) with
    | none => differences key events = [] ∧ recentDifferences key events = []
    | some contribution =>
      Keeps (differences key events) (recentDifferences key events) contribution := by
  induction events using List.reverseRecOn with
  | nil => exact ⟨rfl, rfl⟩
  | append_singleton events event hypothesis =>
    rw [contributionsAfter, List.foldl_append, List.foldl_cons, List.foldl_nil, differences,
      List.flatMap_append, List.flatMap_singleton, recentDifferences, List.foldl_append,
      List.foldl_cons, List.foldl_nil]
    change match contributionOf key (Event.apply (contributionsAfter events) event) with
      | none => differences key events ++ event.differenceFor key = [] ∧
          event.recentFor key (recentDifferences key events) = []
      | some contribution => Keeps (differences key events ++ event.differenceFor key)
          (event.recentFor key (recentDifferences key events)) contribution
    cases event with
    | adjusted disciplineId researchId researchContentId diff =>
      rw [Event.apply, contributionOf_adjust]
      simp only [Event.recentFor, Event.differenceFor]
      by_cases own : (researchContentId, disciplineId) = key
      · simp only [if_pos own]
        cases found : contributionOf key (contributionsAfter events) with
        | none =>
          rw [found] at hypothesis
          rw [hypothesis.1, hypothesis.2]
          exact .created _ _ _ _
        | some contribution =>
          rw [found] at hypothesis
          exact Keeps.modified hypothesis diff
      · simp only [if_neg own, List.append_nil]
        exact hypothesis
    | distributed =>
      rw [Event.apply, contributionOf_distributed]
      simp only [Event.recentFor, Event.differenceFor, List.append_nil]
      cases found : contributionOf key (contributionsAfter events) with
      | none =>
        rw [found] at hypothesis
        exact ⟨hypothesis.1, trivial⟩
      | some contribution =>
        rw [found] at hypothesis
        exact Keeps.distributed hypothesis

/-- After any events, a contribution has accumulated its differences exactly if the two pieces of
code keep their sums. -/
theorem contributionsAfter_accumulated (events : List Event) (key : Nat × Nat)
    (contribution : ExpertiseContribution)
    (found : contributionOf key (contributionsAfter events) = some contribution) :
    Accumulated key events contribution ↔
      SumsUp (differences key events) (recentDifferences key events) := by
  have keeps := contributionsAfter_keeps key events
  rw [found] at keeps
  dsimp only at keeps
  obtain ⟨some_, criterias, delta, _⟩ := keeps
  obtain ⟨first, rest, split⟩ := List.exists_cons_of_ne_nil some_
  have scored (criterion : Nat) : contribution.assessmentCriterias[criterion]? =
      (if mentions criterion (differences key events) = [] then none
        else some (mentions criterion (differences key events)).sum) ↔
      (mentions criterion (differences key events)).tail.sum = 0 := by
    rw [criterias]
    cases mentions criterion (differences key events) with
    | nil => simp
    | cons score scores =>
      rw [if_neg (List.cons_ne_nil _ _), List.head?_cons, Option.some.injEq, List.sum_cons,
        List.tail_cons]
      omega
  have counted : contribution.eciCurrentBlockDelta =
      ((recentDifferences key events).map EciDiff.diff).sum ↔
      (recentDifferences key events = differences key events →
        ∀ first, (differences key events).head? = some first → first.previous = 0) := by
    rw [delta, split, List.head?_cons, Option.map_some, Option.getD_some]
    by_cases whole : recentDifferences key events = first :: rest
    · rw [if_pos whole]
      constructor
      · intro sum _ other same
        obtain rfl := Option.some.inj same
        omega
      · intro zero
        have none := zero whole first rfl
        omega
    · rw [if_neg whole, add_zero]
      exact ⟨fun _ same => absurd same whole, fun _ => rfl⟩
  constructor
  · intro accumulated
    exact ⟨fun criterion => (scored criterion).mp (accumulated.criterias criterion),
      counted.mp accumulated.delta⟩
  · intro sums
    exact ⟨fun criterion => (scored criterion).mpr (sums.scores criterion), counted.mpr sums.fresh⟩

/-- A review that raises the expertise of a content and scores one criterion. -/
def Sample.review (old new score : Int) : EciDiff where
  old := old
  new := new
  timestamp := 1
  contributionType := 2
  contributionId := 0
  assessmentCriterias := (∅ : ExtTreeMap Nat Int).insert 1 score

/-- One review, and the distribution of its block. -/
theorem contributionsAfter_accumulated_sample : ∃ contribution,
    contributionOf (7, 3) (contributionsAfter [.adjusted 3 5 7 (Sample.review 0 10 4), .distributed]) =
      some contribution ∧
    Accumulated (7, 3) [.adjusted 3 5 7 (Sample.review 0 10 4), .distributed] contribution := by
  refine ⟨_, rfl, (contributionsAfter_accumulated _ _ _ rfl).mpr ⟨fun criterion => ?_, ?_⟩⟩
  · have single := mentions_singleton criterion (Sample.review 0 10 4)
    change (mentions criterion [Sample.review 0 10 4]).tail.sum = 0
    rw [single]
    cases (Sample.review 0 10 4).assessmentCriterias[criterion]? with
    | none => rfl
    | some value => rfl
  · exact fun none => nomatch none

/-- Of two reviews of a criterion, with scores 4 and 5, the second one is lost. -/
theorem contributionsAfter_accumulated_fails : ∃ contribution,
    contributionOf (7, 3) (contributionsAfter
      [.adjusted 3 5 7 (Sample.review 0 10 4), .adjusted 3 5 7 (Sample.review 10 30 5)]) =
      some contribution ∧
    ¬ Accumulated (7, 3) [.adjusted 3 5 7 (Sample.review 0 10 4),
      .adjusted 3 5 7 (Sample.review 10 30 5)] contribution := by
  refine ⟨_, rfl, fun accumulated => ?_⟩
  exact absurd (accumulated.criterias 1) (by decide +kernel)

end DeipChain.Expertise
