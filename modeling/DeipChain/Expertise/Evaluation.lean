import DeipChain.Lib.OrderedMap
import Mathlib.Data.Int.Order.Basic
import Mathlib.Data.List.Induction
import Mathlib.Data.List.Pairwise

/-!
# The evaluation of a research

The expertise contribution index of a research adds, for each of its disciplines, what its final
result is worth to what the reviewers of its milestones give it: the heaviest positive review of
each reviewer less the heaviest negative one. A review weighs the expertise that it used and a
bonus for each vote on it, but the running weight of a reviewer is compared with the expertise
alone. So the order in which contents and reviews are visited can decide the result.
-/
namespace DeipChain.Expertise

open Std OrderedMap

/-- `DEIP_CURATOR_INFLUENCE_BONUS` -/
def curatorInfluenceBonus : Int := 10

/-- `research_content_object` -/
structure ResearchContent where
  id : Nat
  isFinalResult : Bool

/-- `review_object`. An expertise is used in each of the disciplines. -/
structure Review where
  id : Nat
  researchContentId : Nat
  author : String
  isPositive : Bool
  disciplines : List Nat
  expertiseTokensAmountByDiscipline : ExtTreeMap Nat Int
  used : ∀ discipline ∈ disciplines, discipline ∈ expertiseTokensAmountByDiscipline

/-- `review_vote_object` -/
structure ReviewVote where
  reviewId : Nat
  disciplineId : Nat

/-- A research with its contents, the reviews, and the votes on them, each table in the order in
which it is visited. The first final result finishes the research, and there is no second one. -/
structure Research where
  isFinished : Bool
  disciplines : List Nat
  contents : List ResearchContent
  reviews : List Review
  reviewVotes : List ReviewVote
  /-- `dbs_research_content::get_eci_evaluation`, which is computed in floating point. -/
  contentEvaluation : Nat → ExtTreeMap Nat Int
  finished : isFinished = contents.any ResearchContent.isFinalResult
  final : contents.Pairwise fun one two => ¬ (one.isFinalResult ∧ two.isFinalResult)

/-- What a review says about one discipline: the expertise it used there and its votes. -/
structure Assessment where
  disciplineId : Nat
  author : String
  isPositive : Bool
  expertiseUsed : Int
  votesCount : Nat
deriving DecidableEq

namespace Assessment

def weight (assessment : Assessment) : Int :=
  assessment.expertiseUsed + assessment.votesCount * curatorInfluenceBonus

/-- A review by a reviewer in a discipline, of one kind. -/
def isOf (disciplineId : Nat) (author : String) (isPositive : Bool) (assessment : Assessment) :
    Bool :=
  assessment.disciplineId == disciplineId && assessment.author == author &&
    assessment.isPositive == isPositive

/-- The running weight is compared with the expertise, and replaced by the weight. -/
def raise (running : Int) (assessment : Assessment) : Int :=
  if running < assessment.expertiseUsed then assessment.weight else running

/-- The two running weights of a reviewer in a discipline. -/
def raiseWeights (weights : Int × Int) (assessment : Assessment) : Int × Int :=
  if assessment.isPositive then (raise weights.1 assessment, weights.2)
  else (weights.1, raise weights.2 assessment)

end Assessment

/-- `max_and_min_reviewer_weight_by_discipline` -/
abbrev ReviewerWeights := ExtTreeMap Nat (ExtTreeMap String (Int × Int))

namespace ReviewerWeights

/-- `authors_weights` of a discipline -/
def authorsWeights (weights : ReviewerWeights) (disciplineId : Nat) :
    ExtTreeMap String (Int × Int) :=
  weights[disciplineId]?.getD ∅

def record (weights : ReviewerWeights) (assessment : Assessment) : ReviewerWeights :=
  let authors := weights.authorsWeights assessment.disciplineId
  let before := authors[assessment.author]?.getD (0, 0)
  weights.insert assessment.disciplineId
    (authors.insert assessment.author (assessment.raiseWeights before))

end ReviewerWeights

namespace Research

variable (research : Research)

def finalResult : Option ResearchContent :=
  if research.isFinished then research.contents.find? ResearchContent.isFinalResult else none

def getReviewsByResearchContent (researchContentId : Nat) : List Review :=
  research.reviews.filter fun review => review.researchContentId == researchContentId

def finalResultReviewers : List String :=
  match research.finalResult with
  | some final => (research.getReviewsByResearchContent final.id).map Review.author
  | none => []

def finalResultWeight : ExtTreeMap Nat Int :=
  match research.finalResult with
  | some final => research.contentEvaluation final.id
  | none => ∅

/-- What one milestone review says, discipline by discipline. -/
def assessments (review : Review) : List Assessment :=
  review.disciplines.attach.map fun ⟨disciplineId, listed⟩ =>
    { disciplineId
      author := review.author
      isPositive := review.isPositive
      expertiseUsed := review.expertiseTokensAmountByDiscipline.get disciplineId
        (review.used disciplineId listed)
      votesCount := research.reviewVotes.countP fun vote =>
        vote.reviewId == review.id && vote.disciplineId == disciplineId }

def milestones : List ResearchContent :=
  research.contents.filter fun content =>
    !(research.finalResult.any fun final => content.id == final.id)

/-- The reviews of a milestone whose authors have not reviewed the final result. -/
def milestoneReviews (content : ResearchContent) : List Review :=
  (research.getReviewsByResearchContent content.id).filter fun review =>
    !research.finalResultReviewers.contains review.author

/-- All that the loops over contents, reviews and disciplines visit. -/
def visited : List Assessment :=
  research.milestones.flatMap fun content =>
    (research.milestoneReviews content).flatMap research.assessments

def maxAndMinReviewerWeightByDiscipline : ReviewerWeights :=
  research.visited.foldl ReviewerWeights.record ∅

/-- `get_eci_evaluation` -/
def getEciEvaluation : ExtTreeMap Nat Int :=
  let weights := research.maxAndMinReviewerWeightByDiscipline
  research.disciplines.foldl (fun evaluation disciplineId =>
    let reviewers := (weights.authorsWeights disciplineId).toList.foldl
      (fun total entry => total + (entry.2.1 - entry.2.2)) 0
    let final := research.finalResultWeight[disciplineId]?.getD 0
    evaluation.insert disciplineId (reviewers + final)) ∅

/-! ## What the evaluation is for -/

/-- The positive, or the negative, milestone reviews of a reviewer in a discipline. -/
def reviewsOf (disciplineId : Nat) (author : String) (isPositive : Bool) : List Assessment :=
  research.visited.filter (Assessment.isOf disciplineId author isPositive)

/-- The weight of a heaviest review. -/
def heaviest (reviews : List Assessment) : Int :=
  (reviews.map Assessment.weight).max?.getD 0

/-- The weights of each reviewer are those of its heaviest positive and negative reviews. -/
def WeighsHeaviest : Prop :=
  ∀ disciplineId author,
    (research.maxAndMinReviewerWeightByDiscipline.authorsWeights disciplineId)[author]?.getD (0, 0) =
      (heaviest (research.reviewsOf disciplineId author true),
        heaviest (research.reviewsOf disciplineId author false))

/-- The same records, whose contents and reviews are visited in another order. -/
structure Reordered (research other : Research) : Prop where
  isFinished : other.isFinished = research.isFinished
  disciplines : other.disciplines = research.disciplines
  contents : other.contents.Perm research.contents
  reviews : other.reviews.Perm research.reviews
  reviewVotes : other.reviewVotes = research.reviewVotes
  contentEvaluation : other.contentEvaluation = research.contentEvaluation

/-- In any order, the weights are those of the heaviest reviews, and the evaluation is the same. -/
def OrderFree : Prop :=
  ∀ other, Reordered research other →
    other.WeighsHeaviest ∧ other.getEciEvaluation = research.getEciEvaluation

/-- Some heaviest review used more expertise than any lighter one, that used some, weighs with
its votes; or there is no weight to find. -/
def Decided (reviews : List Assessment) : Prop :=
  heaviest reviews = 0 ∨
    ∃ best ∈ reviews, best.weight = heaviest reviews ∧ 0 < best.expertiseUsed ∧
      ∀ review ∈ reviews, review.weight < best.weight → 0 < review.expertiseUsed →
        review.weight < best.expertiseUsed

end Research

/-! ## The weights of a reviewer -/

namespace Assessment

theorem isOf_iff {assessment : Assessment} {disciplineId : Nat} {author : String}
    {isPositive : Bool} : assessment.isOf disciplineId author isPositive = true ↔
      assessment.disciplineId = disciplineId ∧ assessment.author = author ∧
        assessment.isPositive = isPositive := by
  rw [isOf, Bool.and_eq_true, Bool.and_eq_true, beq_iff_eq, beq_iff_eq, beq_iff_eq, and_assoc]

theorem expertiseUsed_le_weight (assessment : Assessment) :
    assessment.expertiseUsed ≤ assessment.weight := by
  rw [weight, curatorInfluenceBonus]
  omega

theorem raise_nonneg {running : Int} (nonneg : 0 ≤ running) (assessment : Assessment) :
    0 ≤ raise running assessment := by
  have above := assessment.expertiseUsed_le_weight
  rw [raise]
  split <;> omega

/-- The largest weight is not replaced. -/
theorem foldl_raise_largest {largest : Int} {reviews : List Assessment}
    (bounded : ∀ review ∈ reviews, review.weight ≤ largest) :
    reviews.foldl raise largest = largest := by
  induction reviews with
  | nil => rfl
  | cons review rest hypothesis =>
    rw [List.forall_mem_cons] at bounded
    have above := review.expertiseUsed_le_weight
    have kept : raise largest review = largest := by
      rw [raise, if_neg (by omega)]
    rw [List.foldl_cons, kept]
    exact hypothesis bounded.2

theorem foldl_raise_nonneg {running : Int} (nonneg : 0 ≤ running) (reviews : List Assessment) :
    0 ≤ reviews.foldl raise running := by
  induction reviews generalizing running with
  | nil => exact nonneg
  | cons review rest hypothesis => exact hypothesis (raise_nonneg nonneg review)

/-- A heaviest review is reached if no lighter one can stand in its way. -/
theorem foldl_raise_reaches {best : Assessment} {running : Int} {reviews : List Assessment}
    (listed : best ∈ reviews) (bounded : ∀ review ∈ reviews, review.weight ≤ best.weight)
    (lighter : ∀ review ∈ reviews, review.weight < best.weight → 0 < review.expertiseUsed →
      review.weight < best.expertiseUsed)
    (nonneg : 0 ≤ running) (below : running < best.expertiseUsed) :
    reviews.foldl raise running = best.weight := by
  induction reviews generalizing running with
  | nil => cases listed
  | cons review rest hypothesis =>
    rw [List.forall_mem_cons] at bounded lighter
    rw [List.foldl_cons]
    by_cases raised : running < review.expertiseUsed
    · rw [raise, if_pos raised]
      by_cases heavy : review.weight = best.weight
      · rw [heavy]
        exact foldl_raise_largest bounded.2
      · have light : review.weight < best.weight := by omega
        have later : best ∈ rest := by
          cases listed with
          | head => exact absurd rfl heavy
          | tail _ later => exact later
        have above := review.expertiseUsed_le_weight
        exact hypothesis later bounded.2 lighter.2 (by omega) (lighter.1 light (by omega))
    · rw [raise, if_neg raised]
      have later : best ∈ rest := by
        cases listed with
        | head => exact absurd below raised
        | tail _ later => exact later
      exact hypothesis later bounded.2 lighter.2 nonneg below

/-- No heaviest review is reached from a weight that none of them exceeds by its expertise. -/
theorem foldl_raise_misses {largest running : Int} {reviews : List Assessment}
    (bounded : ∀ review ∈ reviews, review.weight ≤ largest)
    (missed : ∀ review ∈ reviews, review.weight = largest → review.expertiseUsed ≤ running)
    (below : running < largest) : reviews.foldl raise running < largest := by
  induction reviews generalizing running with
  | nil => exact below
  | cons review rest hypothesis =>
    rw [List.forall_mem_cons] at bounded missed
    rw [List.foldl_cons]
    by_cases raised : running < review.expertiseUsed
    · rw [raise, if_pos raised]
      have light : review.weight < largest := by
        rcases Int.lt_or_eq_of_le bounded.1 with light | heavy
        · exact light
        · exact absurd raised (Int.not_lt.mpr (missed.1 heavy))
      have above := review.expertiseUsed_le_weight
      refine hypothesis bounded.2 (fun other member heavy => ?_) light
      have before := missed.2 other member heavy
      omega
    · rw [raise, if_neg raised]
      exact hypothesis bounded.2 missed.2 below

end Assessment

namespace ReviewerWeights

open Assessment

theorem lookup_record (weights : ReviewerWeights) (assessment : Assessment) (disciplineId : Nat)
    (author : String) :
    ((weights.record assessment).authorsWeights disciplineId)[author]? =
      if assessment.disciplineId = disciplineId ∧ assessment.author = author then
        some (assessment.raiseWeights
          ((weights.authorsWeights disciplineId)[author]?.getD (0, 0)))
      else (weights.authorsWeights disciplineId)[author]? := by
  rw [record, authorsWeights, lookup_insert]
  by_cases discipline : assessment.disciplineId = disciplineId
  · subst discipline
    rw [if_pos rfl, Option.getD_some, lookup_insert]
    by_cases own : assessment.author = author
    · subst own
      rw [if_pos rfl, if_pos ⟨rfl, rfl⟩]
    · rw [if_neg own, if_neg fun both => own both.2]
  · rw [if_neg discipline, if_neg fun both => discipline both.1]
    rfl

/-- The weights of a reviewer in a discipline are two running weights. -/
theorem lookup_recorded (reviews : List Assessment) (disciplineId : Nat) (author : String) :
    ((reviews.foldl record ∅).authorsWeights disciplineId)[author]?.getD (0, 0) =
      ((reviews.filter (isOf disciplineId author true)).foldl raise 0,
        (reviews.filter (isOf disciplineId author false)).foldl raise 0) := by
  induction reviews using List.reverseRecOn with
  | nil => rfl
  | append_singleton reviews review hypothesis =>
    rw [List.foldl_append, List.foldl_cons, List.foldl_nil, lookup_record, List.filter_append,
      List.filter_append, List.foldl_append, List.foldl_append]
    by_cases own : review.disciplineId = disciplineId ∧ review.author = author
    · obtain ⟨rfl, rfl⟩ := own
      rw [if_pos ⟨rfl, rfl⟩, Option.getD_some, hypothesis, raiseWeights]
      cases sign : review.isPositive with
      | true => simp [isOf, sign]
      | false => simp [isOf, sign]
    · rw [if_neg own, hypothesis]
      have apart (isPositive : Bool) :
          [review].filter (isOf disciplineId author isPositive) = [] := by
        by_cases discipline : review.disciplineId = disciplineId
        · have other : review.author ≠ author := fun same => own ⟨discipline, same⟩
          simp [isOf, other]
        · simp [isOf, discipline]
      rw [apart, apart]
      rfl

/-- There is a weight for each reviewer. -/
theorem lookup_recorded_isSome (reviews : List Assessment) (disciplineId : Nat) (author : String) :
    ((reviews.foldl record ∅).authorsWeights disciplineId)[author]?.isSome ↔
      ∃ review ∈ reviews, review.disciplineId = disciplineId ∧ review.author = author := by
  induction reviews using List.reverseRecOn with
  | nil => simp [authorsWeights]
  | append_singleton reviews review hypothesis =>
    rw [List.foldl_append, List.foldl_cons, List.foldl_nil, lookup_record]
    by_cases own : review.disciplineId = disciplineId ∧ review.author = author
    · rw [if_pos own]
      exact ⟨fun _ => ⟨review, by simp, own⟩, fun _ => rfl⟩
    · rw [if_neg own, hypothesis]
      constructor
      · rintro ⟨earlier, member, other⟩
        exact ⟨earlier, List.mem_append_left _ member, other⟩
      · rintro ⟨earlier, member, other⟩
        rcases List.mem_append.mp member with before | last
        · exact ⟨earlier, before, other⟩
        · obtain rfl := List.mem_singleton.mp last
          exact absurd other own

end ReviewerWeights

/-! ## The order of the visits -/

namespace Research

open Assessment

variable {research other : Research}

/-- A research that is not finished has no final result, and the contents of one have just one. -/
theorem Reordered.finalResult (reordered : Reordered research other) :
    other.finalResult = research.finalResult := by
  rw [Research.finalResult, Research.finalResult, reordered.isFinished]
  by_cases finished : research.isFinished = true
  · rw [if_pos finished, if_pos finished]
    obtain ⟨content, listed, isFinal⟩ := List.any_eq_true.mp (research.finished.symm.trans finished)
    have single (one : ResearchContent) (member : one ∈ research.contents)
        (alike : one.isFinalResult = true) : one = content := by
      by_contra apart
      have symmetric : Std.Symm fun one two : ResearchContent =>
          ¬ (one.isFinalResult ∧ two.isFinalResult) := ⟨fun _ _ not both => not both.symm⟩
      exact research.final.forall member listed apart ⟨alike, isFinal⟩
    have found (contents : List ResearchContent) (same : contents.Perm research.contents) :
        contents.find? ResearchContent.isFinalResult = some content := by
      obtain ⟨one, first⟩ := Option.isSome_iff_exists.mp
        (List.find?_isSome.mpr ⟨content, same.mem_iff.mpr listed, isFinal⟩)
      have member := same.mem_iff.mp (List.mem_of_find?_eq_some first)
      rw [first, single one member (List.find?_some first)]
    rw [found _ reordered.contents, found _ (.refl _)]
  · rw [if_neg finished, if_neg finished]

theorem Reordered.contains_finalResultReviewers (reordered : Reordered research other)
    (name : String) : other.finalResultReviewers.contains name =
      research.finalResultReviewers.contains name := by
  rw [finalResultReviewers, finalResultReviewers, reordered.finalResult]
  cases research.finalResult with
  | none => rfl
  | some final => exact ((reordered.reviews.filter _).map _).contains_eq

theorem Reordered.milestoneReviews (reordered : Reordered research other)
    (content : ResearchContent) :
    (other.milestoneReviews content).Perm (research.milestoneReviews content) := by
  rw [Research.milestoneReviews, Research.milestoneReviews]
  simp only [reordered.contains_finalResultReviewers]
  exact (reordered.reviews.filter _).filter _

theorem Reordered.assessments (reordered : Reordered research other) :
    other.assessments = research.assessments := by
  funext review
  rw [Research.assessments, Research.assessments, reordered.reviewVotes]

/-- Another order visits the same reviews. -/
theorem Reordered.mem_visited (reordered : Reordered research other) (assessment : Assessment) :
    assessment ∈ other.visited ↔ assessment ∈ research.visited := by
  have milestones : other.milestones.Perm research.milestones := by
    rw [Research.milestones, Research.milestones, reordered.finalResult]
    exact reordered.contents.filter _
  simp only [visited, List.mem_flatMap, reordered.assessments, milestones.mem_iff,
    (reordered.milestoneReviews _).mem_iff]

theorem Reordered.mem_reviewsOf (reordered : Reordered research other) (disciplineId : Nat)
    (author : String) (isPositive : Bool) (assessment : Assessment) :
    assessment ∈ other.reviewsOf disciplineId author isPositive ↔
      assessment ∈ research.reviewsOf disciplineId author isPositive := by
  rw [reviewsOf, reviewsOf, List.mem_filter, List.mem_filter, reordered.mem_visited]

/-- The weights decide the evaluation. -/
theorem Reordered.getEciEvaluation (reordered : Reordered research other)
    (weighs : other.WeighsHeaviest) (weighs' : research.WeighsHeaviest)
    (same : ∀ disciplineId author isPositive,
      heaviest (other.reviewsOf disciplineId author isPositive) =
        heaviest (research.reviewsOf disciplineId author isPositive)) :
    other.getEciEvaluation = research.getEciEvaluation := by
  have authors (disciplineId : Nat) :
      other.maxAndMinReviewerWeightByDiscipline.authorsWeights disciplineId =
        research.maxAndMinReviewerWeightByDiscipline.authorsWeights disciplineId := by
    apply ExtTreeMap.ext_getElem?
    intro author
    have value := weighs disciplineId author
    rw [same, same, ← weighs' disciplineId author] at value
    have present := ReviewerWeights.lookup_recorded_isSome other.visited disciplineId author
    simp only [reordered.mem_visited] at present
    rw [← ReviewerWeights.lookup_recorded_isSome research.visited disciplineId author] at present
    change (other.maxAndMinReviewerWeightByDiscipline.authorsWeights disciplineId)[author]?.isSome ↔
      (research.maxAndMinReviewerWeightByDiscipline.authorsWeights disciplineId)[author]?.isSome
      at present
    revert value present
    cases (other.maxAndMinReviewerWeightByDiscipline.authorsWeights disciplineId)[author]? with
    | none =>
      cases (research.maxAndMinReviewerWeightByDiscipline.authorsWeights disciplineId)[author]? with
      | none => exact fun _ _ => rfl
      | some weights => exact fun _ present => nomatch present.mpr rfl
    | some weights =>
      cases (research.maxAndMinReviewerWeightByDiscipline.authorsWeights disciplineId)[author]? with
      | none => exact fun _ present => nomatch present.mp rfl
      | some weights' => exact fun value _ => congrArg some value
  have final : other.finalResultWeight = research.finalResultWeight := by
    rw [finalResultWeight, finalResultWeight, reordered.finalResult, reordered.contentEvaluation]
  rw [Research.getEciEvaluation, Research.getEciEvaluation, reordered.disciplines]
  simp only [authors, final]

/-! ## The heaviest reviews -/

theorem le_heaviest {reviews : List Assessment} {review : Assessment} (member : review ∈ reviews) :
    review.weight ≤ heaviest reviews := by
  have listed := List.mem_map_of_mem (f := Assessment.weight) member
  cases found : (reviews.map Assessment.weight).max? with
  | none => simp [List.max?_eq_none_iff.mp found] at listed
  | some largest =>
    rw [heaviest, found]
    exact (List.max?_eq_some_iff.mp found).2 _ listed

theorem exists_heaviest {reviews : List Assessment} (some_ : reviews ≠ []) :
    ∃ review ∈ reviews, review.weight = heaviest reviews := by
  cases found : (reviews.map Assessment.weight).max? with
  | none => exact absurd (List.map_eq_nil_iff.mp (List.max?_eq_none_iff.mp found)) some_
  | some largest =>
    obtain ⟨review, member, same⟩ := List.mem_map.mp (List.max?_eq_some_iff.mp found).1
    exact ⟨review, member, by rw [heaviest, found]; exact same⟩

theorem heaviest_congr {reviews reviews' : List Assessment}
    (same : ∀ review, review ∈ reviews ↔ review ∈ reviews') :
    heaviest reviews = heaviest reviews' := by
  by_cases none : reviews = []
  · have none' : reviews' = [] := by
      rw [List.eq_nil_iff_forall_not_mem] at none ⊢
      exact fun review member => none review ((same review).mpr member)
    rw [none, none']
  · obtain ⟨review, member, heavy⟩ := exists_heaviest none
    have some_ : reviews' ≠ [] := List.ne_nil_of_mem ((same review).mp member)
    obtain ⟨review', member', heavy'⟩ := exists_heaviest some_
    have above := le_heaviest ((same review).mp member)
    have above' := le_heaviest ((same review').mpr member')
    omega

theorem Decided.congr {reviews reviews' : List Assessment}
    (same : ∀ review, review ∈ reviews ↔ review ∈ reviews') (decided : Decided reviews) :
    Decided reviews' := by
  rw [Decided, ← heaviest_congr same]
  simp only [← same]
  exact decided

/-- The running weight of decided reviews ends with a heaviest one. -/
theorem Decided.foldl_raise {reviews : List Assessment} (decided : Decided reviews) :
    reviews.foldl raise 0 = heaviest reviews := by
  rcases decided with zero | ⟨best, listed, heavy, positive, lighter⟩
  · rw [zero]
    refine foldl_raise_largest fun review member => ?_
    rw [← zero]
    exact le_heaviest member
  · rw [← heavy]
    refine foldl_raise_reaches listed (fun review member => ?_) lighter (Int.le_refl 0) positive
    rw [heavy]
    exact le_heaviest member

/-- Reviews that are not decided are told wrong as soon as the heaviest of the lighter ones that
used some expertise comes first, or in any order if there is none. -/
theorem foldl_raise_undecided {reviews : List Assessment} (undecided : ¬ Decided reviews) :
    ∃ first ∈ reviews, ∀ rest, (∀ review ∈ rest, review ∈ reviews) →
      (first :: rest).foldl raise 0 ≠ heaviest reviews := by
  rw [Decided, not_or] at undecided
  obtain ⟨weighty, undecided⟩ := undecided
  have some_ : reviews ≠ [] := fun none => weighty (none ▸ rfl)
  have bounded (rest : List Assessment) (within : ∀ review ∈ rest, review ∈ reviews) (review)
      (member : review ∈ rest) : review.weight ≤ heaviest reviews := le_heaviest (within review member)
  let lighter := reviews.filter fun review =>
    review.weight < heaviest reviews ∧ 0 < review.expertiseUsed
  have mem_lighter (review : Assessment) : review ∈ lighter ↔
      review ∈ reviews ∧ review.weight < heaviest reviews ∧ 0 < review.expertiseUsed := by
    rw [List.mem_filter, decide_eq_true_eq]
  by_cases any : lighter = []
  · -- Every heaviest review used no expertise, and no order finds it.
    obtain ⟨first, listed, heavy⟩ := exists_heaviest some_
    refine ⟨first, listed, fun rest within => ?_⟩
    rcases Int.lt_or_lt_of_ne weighty with negative | positive
    · have nonneg := foldl_raise_nonneg (Int.le_refl 0) (first :: rest)
      omega
    · have all : ∀ review ∈ first :: rest, review ∈ reviews :=
        List.forall_mem_cons.mpr ⟨listed, within⟩
      refine Int.ne_of_lt (foldl_raise_misses (bounded _ all) (fun review member largest => ?_)
        positive)
      by_contra used
      refine undecided ⟨review, all review member, largest, Int.not_le.mp used,
        fun light among less expertise => ?_⟩
      rw [largest] at less
      exact absurd ((mem_lighter light).mpr ⟨among, less, expertise⟩) (any ▸ List.not_mem_nil)
  · obtain ⟨first, listed, heavy⟩ := exists_heaviest any
    obtain ⟨member, light, used⟩ := (mem_lighter first).mp listed
    refine ⟨first, member, fun rest within => ?_⟩
    rw [List.foldl_cons, raise, if_pos used]
    refine Int.ne_of_lt (foldl_raise_misses (bounded _ within) (fun review among largest => ?_)
      light)
    by_contra above
    have weight := first.expertiseUsed_le_weight
    refine undecided ⟨review, within review among, largest, by omega,
      fun lightReview lightMember less expertise => ?_⟩
    rw [largest] at less
    have most := le_heaviest ((mem_lighter lightReview).mpr ⟨lightMember, less, expertise⟩)
    omega

/-! ## The evaluation in any order -/

theorem weights_eq (research : Research) (disciplineId : Nat) (author : String) :
    (research.maxAndMinReviewerWeightByDiscipline.authorsWeights disciplineId)[author]?.getD (0, 0) =
      ((research.reviewsOf disciplineId author true).foldl raise 0,
        (research.reviewsOf disciplineId author false).foldl raise 0) :=
  ReviewerWeights.lookup_recorded research.visited disciplineId author

/-- A review says one thing about a discipline. -/
theorem find?_assessments {review : Review} {assessment : Assessment}
    (listed : assessment ∈ research.assessments review) :
    (research.assessments review).find?
      (isOf assessment.disciplineId assessment.author assessment.isPositive) = some assessment := by
  obtain ⟨one, found⟩ := Option.isSome_iff_exists.mp
    (List.find?_isSome.mpr ⟨assessment, listed, isOf_iff.mpr ⟨rfl, rfl, rfl⟩⟩)
  have member := List.mem_of_find?_eq_some found
  obtain ⟨discipline, _, _⟩ := isOf_iff.mp (List.find?_some found)
  obtain ⟨⟨id, known⟩, _, rfl⟩ := List.mem_map.mp listed
  obtain ⟨⟨id', known'⟩, _, rfl⟩ := List.mem_map.mp member
  obtain rfl : id' = id := discipline
  exact found

/-- A milestone review can be visited first. -/
theorem exists_reordered_first {assessment : Assessment} (listed : assessment ∈ research.visited) :
    ∃ other, Reordered research other ∧ ∃ rest,
      other.reviewsOf assessment.disciplineId assessment.author assessment.isPositive =
        assessment :: rest := by
  rw [visited, List.mem_flatMap] at listed
  obtain ⟨content, milestone, listed⟩ := listed
  obtain ⟨review, reviewed, listed⟩ := List.mem_flatMap.mp listed
  obtain ⟨member, isMilestone⟩ := List.mem_filter.mp milestone
  obtain ⟨before, after, contents⟩ := List.append_of_mem member
  obtain ⟨ofContent, isMilestoneReview⟩ := List.mem_filter.mp reviewed
  obtain ⟨reviewMember, isOfContent⟩ := List.mem_filter.mp ofContent
  obtain ⟨before', after', reviews⟩ := List.append_of_mem reviewMember
  have moved : (content :: (before ++ after)).Perm research.contents :=
    contents ▸ List.perm_middle.symm
  let other : Research :=
    { research with
      contents := content :: (before ++ after)
      reviews := review :: (before' ++ after')
      finished := research.finished.trans moved.symm.any_eq
      final := moved.symm.pairwise research.final fun not both => not both.symm }
  have reordered : Reordered research other :=
    { isFinished := rfl
      disciplines := rfl
      contents := moved
      reviews := reviews ▸ List.perm_middle.symm
      reviewVotes := rfl
      contentEvaluation := rfl }
  obtain ⟨contentsLater, milestones⟩ : ∃ later, other.milestones = content :: later := by
    rw [Research.milestones, reordered.finalResult]
    exact ⟨_, List.filter_cons_of_pos isMilestone⟩
  obtain ⟨reviewsLater, milestoneReviews⟩ :
      ∃ later, other.milestoneReviews content = review :: later := by
    have same := reordered.contains_finalResultReviewers review.author
    obtain ⟨later, first⟩ : ∃ later, other.getReviewsByResearchContent content.id = review :: later :=
      ⟨_, List.filter_cons_of_pos isOfContent⟩
    rw [Research.milestoneReviews, first]
    refine ⟨_, List.filter_cons_of_pos ?_⟩
    rwa [same]
  refine ⟨other, reordered, ?_⟩
  have found : (other.visited).find?
      (isOf assessment.disciplineId assessment.author assessment.isPositive) = some assessment := by
    rw [Research.visited, milestones, List.flatMap_cons, milestoneReviews, List.flatMap_cons,
      List.find?_append, List.find?_append, find?_assessments, Option.some_or, Option.some_or]
    rwa [reordered.assessments]
  rw [reviewsOf]
  exact List.head?_eq_some_iff.mp (List.head?_filter.trans found)

/-- In every order the weights are those of the heaviest reviews and the evaluation is the same,
exactly if the reviews of every reviewer of each kind in each discipline are decided. -/
theorem orderFree_iff (research : Research) :
    research.OrderFree ↔ ∀ disciplineId author isPositive,
      Decided (research.reviewsOf disciplineId author isPositive) := by
  constructor
  · intro orderFree disciplineId author isPositive
    by_contra undecided
    obtain ⟨first, listed, wrong⟩ := foldl_raise_undecided undecided
    obtain ⟨visited, own⟩ := List.mem_filter.mp listed
    obtain ⟨rfl, rfl, rfl⟩ := isOf_iff.mp own
    obtain ⟨other, reordered, rest, order⟩ := exists_reordered_first visited
    have within (review : Assessment) (member : review ∈ rest) :
        review ∈ research.reviewsOf first.disciplineId first.author first.isPositive := by
      rw [← reordered.mem_reviewsOf, order]
      exact List.mem_cons_of_mem _ member
    have running := other.weights_eq first.disciplineId first.author
    rw [(orderFree other reordered).1, Prod.mk.injEq] at running
    have heaviest_eq := heaviest_congr
      (reordered.mem_reviewsOf first.disciplineId first.author first.isPositive)
    apply wrong rest within
    rw [← order, ← heaviest_eq]
    cases sign : first.isPositive with
    | true => exact running.1.symm
    | false => exact running.2.symm
  · intro decided
    have weighs (one : Research) (reordered : Reordered research one) : one.WeighsHeaviest := by
      intro disciplineId author
      have ends (isPositive : Bool) :=
        ((decided disciplineId author isPositive).congr fun review =>
          (reordered.mem_reviewsOf disciplineId author isPositive review).symm).foldl_raise
      rw [weights_eq, ends, ends]
    intro other reordered
    have own : Reordered research research := ⟨rfl, rfl, .refl _, .refl _, rfl, rfl⟩
    refine ⟨weighs other reordered, reordered.getEciEvaluation (weighs other reordered)
      (weighs research own) fun disciplineId author isPositive => ?_⟩
    exact heaviest_congr (reordered.mem_reviewsOf disciplineId author isPositive)

/-- A review of a milestone by one reviewer in one discipline. -/
def Sample.review (id researchContentId : Nat) (expertiseUsed : Int) : Review where
  id := id
  researchContentId := researchContentId
  author := "reviewer"
  isPositive := true
  disciplines := [3]
  expertiseTokensAmountByDiscipline := (∅ : ExtTreeMap Nat Int).insert 3 expertiseUsed
  used := by simp

/-- Two milestones, each with a review that has one vote. -/
def Sample.milestones (first second : Nat × Int) : Research where
  isFinished := false
  disciplines := [3]
  contents := [⟨first.1, false⟩, ⟨second.1, false⟩]
  reviews := [Sample.review first.1 first.1 first.2, Sample.review second.1 second.1 second.2]
  reviewVotes := [⟨1, 3⟩, ⟨2, 3⟩]
  contentEvaluation := fun _ => ∅
  finished := rfl
  final := by simp

/-- A review that weighs 20 hides one that weighs 25 and used an expertise of 15, and in the other
order it does not. -/
theorem orderFree_fails :
    ¬ (Sample.milestones (1, 10) (2, 15)).OrderFree ∧
      ¬ (Sample.milestones (1, 10) (2, 15)).WeighsHeaviest ∧
      (Sample.milestones (2, 15) (1, 10)).getEciEvaluation ≠
        (Sample.milestones (1, 10) (2, 15)).getEciEvaluation := by
  have lighter : ¬ (Sample.milestones (1, 10) (2, 15)).WeighsHeaviest := fun weighs =>
    absurd (weighs 3 "reviewer") (by decide +kernel)
  refine ⟨fun orderFree => ?_, lighter, fun same => ?_⟩
  · exact lighter (orderFree _ ⟨rfl, rfl, .refl _, .refl _, rfl, rfl⟩).1
  · exact absurd (congrArg (fun evaluation => evaluation[3]?) same) (by decide +kernel)

end Research

end DeipChain.Expertise
