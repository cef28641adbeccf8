import DeipChain.Lib.Rooted
import DeipChain.Ledger.AwardRuns

/-!
# The tree of an award

The subawards of a valid award form a tree: the amounts fall from a source to those it
funds, so a subaward leads up to the main awardee after finitely many steps. The parts
and the fee of the university are the award. A subawardee that is funded by the main
awardee directly is the one whose subaward is not compared with those it passes on, and
such a subawardee can be left with nothing or less.
-/
namespace DeipChain.Ledger

open DeipChain.Result DeipChain.Table DeipChain.Rooted Relation

namespace CreateAwardOperation

variable {op : CreateAwardOperation}

/-- The source relation: the first name passes a subaward on to the second. -/
def Funds (op : CreateAwardOperation) (source subawardee : Name) : Prop :=
  ∃ subaward ∈ op.subawardees, subaward.source = source ∧ subaward.subawardee = subawardee

/-- All who share an award. -/
def awardees (op : CreateAwardOperation) : List Name :=
  op.awardee :: op.subawardees.map Subawardee.subawardee

/-- Each subaward of the main awardee exceeds what its subawardee passes on. -/
def CoversDirect (op : CreateAwardOperation) : Prop :=
  ∀ subaward ∈ op.subawardees, subaward.source = op.awardee →
    total (Subawardee.from subaward.subawardee) op.subawardees < subaward.subaward.amount

instance (op : CreateAwardOperation) : Decidable op.CoversDirect :=
  inferInstanceAs (Decidable (∀ subaward ∈ op.subawardees, _ → _))

/-- The parts that the evaluator computes are positive, and with the fee they are the
    award. They are what the recipients of the award are created with. -/
structure Shares (op : CreateAwardOperation) (parts : List (Name × Asset)) : Prop where
  computed : op.assignments = .ok parts
  symbols : ∀ recipient ∈ op.recipients parts, recipient.totalAmount.symbol = op.award.symbol
  positive : ∀ recipient ∈ op.recipients parts, 0 < recipient.totalAmount.amount
  shared : total (fun recipient => recipient.totalAmount.amount) (op.recipients parts) +
    (universityFee op.award op.universityOverhead).amount = op.award.amount
  created : ∀ state next, op.apply state = .ok next →
    next.recipients = state.recipients ++ op.recipients parts

/-- An award that is shared out along a tree. -/
structure SharesOut (op : CreateAwardOperation) : Prop where
  tree : Tree op.Funds op.awardee fun name => name ∈ op.awardees
  once : op.awardees.Nodup
  acyclic : ∀ name, ¬ TransGen op.Funds name name
  shares : ∃ parts, op.Shares parts

/-! ## The tree -/

theorem Divides.funds_unique (divides : op.Divides) {first second name : Name}
    (one : op.Funds first name) (other : op.Funds second name) : first = second := by
  obtain ⟨subaward, member, rfl, rfl⟩ := one
  obtain ⟨again, listed, rfl, same⟩ := other
  have equal := List.inj_on_of_nodup_map divides.distinct listed member same
  rw [equal]

theorem Divides.funds_listed (divides : op.Divides) {source name : Name}
    (funds : op.Funds source name) : source ∈ op.awardees := by
  obtain ⟨subaward, member, rfl, rfl⟩ := funds
  rcases divides.sourced subaward member with direct | listed
  · exact direct ▸ List.mem_cons_self
  · exact List.mem_cons_of_mem _ listed

/-- What a subawardee gets exceeds the subawards it passes on, if the main awardee is not
    its source. -/
theorem Divides.lower (divides : op.Divides) {upper lower : Subawardee}
    (upperMember : upper ∈ op.subawardees) (lowerMember : lower ∈ op.subawardees)
    (indirect : upper.source ≠ op.awardee) (funds : lower.source = upper.subawardee) :
    lower.subaward.amount < upper.subaward.amount := by
  have parts : ∀ subaward ∈ op.subawardees, 0 ≤ Subawardee.from upper.subawardee subaward := by
    intro subaward member
    rw [Subawardee.from]
    split
    · exact (divides.positive subaward member).le
    · exact le_refl 0
  have part := le_total parts lowerMember
  rw [Subawardee.from, if_pos funds] at part
  exact part.trans_lt (divides.covered upper upperMember indirect)

/-- What a name gets by the subaward made to it. -/
def received (op : CreateAwardOperation) (name : Name) : Int :=
  ((op.subawardees.find? fun subaward => subaward.subawardee == name).map
    fun subaward => subaward.subaward.amount).getD 0

theorem Divides.received_eq (divides : op.Divides) {subaward : Subawardee}
    (member : subaward ∈ op.subawardees) :
    op.received subaward.subawardee = subaward.subaward.amount := by
  rw [received, find?_of_nodup divides.distinct member]
  rfl

theorem Divides.reached (divides : op.Divides) {name : Name}
    (listed : name ∈ op.subawardees.map Subawardee.subawardee) :
    ReflTransGen op.Funds op.awardee name := by
  -- Amounts rise on the way up, so what they leave of the sum of all amounts falls.
  apply reached_of_rank (fun name =>
    (total (fun subaward => subaward.subaward.amount) op.subawardees - op.received name).toNat)
    (fun name known => ?_) listed
  obtain ⟨lower, member, rfl⟩ := List.mem_map.mp known
  have edge : op.Funds lower.source lower.subawardee := ⟨lower, member, rfl, rfl⟩
  by_cases direct : lower.source = op.awardee
  · exact .inl (.single (direct ▸ edge))
  · have source := (divides.sourced lower member).resolve_left direct
    obtain ⟨upper, upperMember, same⟩ := List.mem_map.mp source
    by_cases top : upper.source = op.awardee
    · have first : op.Funds op.awardee lower.source := ⟨upper, upperMember, top, same⟩
      exact .inl (.tail (.single first) edge)
    · right
      refine ⟨lower.source, edge, source, ?_⟩
      have below := divides.lower upperMember member top same.symm
      have most := le_total (fun row listed => (divides.positive row listed).le) upperMember
      rw [← same, divides.received_eq upperMember, divides.received_eq member]
      omega

theorem Divides.tree (divides : op.Divides) :
    Tree op.Funds op.awardee fun name => name ∈ op.awardees := by
  constructor
  · rintro above ⟨subaward, member, _, same⟩
    exact divides.apart (List.mem_map.mpr ⟨subaward, member, same⟩)
  · intro first second name one other
    exact divides.funds_unique one other
  · intro name listed
    rcases List.mem_cons.mp listed with rfl | below
    · exact .refl
    · exact divides.reached below

theorem Divides.once (divides : op.Divides) : op.awardees.Nodup :=
  List.nodup_cons.mpr ⟨divides.apart, divides.distinct⟩

theorem Divides.acyclic (divides : op.Divides) (name : Name) : ¬ TransGen op.Funds name name := by
  intro cycle
  obtain ⟨next, first, _⟩ := TransGen.head'_iff.mp cycle
  have listed := divides.funds_listed first
  exact divides.tree.acyclic (divides.tree.reached name listed) cycle

/-! ## The parts -/

variable {parts : List (Name × Asset)}

theorem recipients_amounts (divides : op.Divides) (computed : op.assignments = .ok parts)
    (property : Asset → Prop) :
    (∀ recipient ∈ op.recipients parts, property recipient.totalAmount) ↔
      property op.mainKeeps ∧ ∀ subaward ∈ op.subawardees, property (op.keeps subaward) := by
  obtain ⟨main, subs⟩ := assigned_eq divides computed
  rw [recipients, List.forall_mem_cons, List.forall_mem_map, mainRecipient, main]
  refine and_congr Iff.rfl (forall₂_congr fun subaward member => ?_)
  rw [subRecipient, subs subaward member]

theorem recipients_symbols (divides : op.Divides) (computed : op.assignments = .ok parts) :
    ∀ recipient ∈ op.recipients parts, recipient.totalAmount.symbol = op.award.symbol :=
  (recipients_amounts divides computed fun amount => amount.symbol = op.award.symbol).mpr
    ⟨rfl, fun _ _ => rfl⟩

theorem recipients_total (divides : op.Divides) (computed : op.assignments = .ok parts) :
    total (fun recipient => recipient.totalAmount.amount) (op.recipients parts) +
      (universityFee op.award op.universityOverhead).amount = op.award.amount := by
  have shared := total_recipients divides computed op.award.symbol
  have same : ∀ recipient ∈ op.recipients parts,
      AwardRecipient.toward op.awardNumber op.award.symbol recipient =
        recipient.totalAmount.amount := by
    intro recipient member
    have number : recipient.awardNumber = op.awardNumber := by
      rcases List.mem_cons.mp member with rfl | below
      · rfl
      · obtain ⟨subaward, _, rfl⟩ := List.mem_map.mp below
        rfl
    rw [AwardRecipient.toward, if_pos number, Asset.under,
      if_pos (recipients_symbols divides computed recipient member)]
  rw [total_congr same, Asset.under, Asset.under, universityFee, if_pos rfl, if_pos rfl] at shared
  rw [shared]
  exact sub_add_cancel _ _

/-- All parts are positive if and only if the unchecked ones are. -/
theorem recipients_positive_iff (divides : op.Divides) (computed : op.assignments = .ok parts) :
    (∀ recipient ∈ op.recipients parts, 0 < recipient.totalAmount.amount) ↔ op.CoversDirect := by
  rw [recipients_amounts divides computed fun amount => 0 < amount.amount]
  constructor
  · rintro ⟨_, positive⟩ subaward member _
    exact Int.sub_pos.mp (positive subaward member)
  · intro covers
    constructor
    · have main := divides.main
      simp only [mainKeeps]
      omega
    · intro subaward member
      apply Int.sub_pos_of_lt
      by_cases direct : subaward.source = op.awardee
      · exact covers subaward member direct
      · exact divides.covered subaward member direct

end CreateAwardOperation

/-- A valid award is shared out along a tree in positive parts exactly when the subawards
    of the main awardee exceed what is passed on from them. -/
theorem createAward_sharesOut_iff (op : CreateAwardOperation) (valid : op.validate = .ok ()) :
    op.SharesOut ↔ op.CoversDirect := by
  have divides := op.divides_of_validate valid
  constructor
  · rintro ⟨_, _, _, parts, shares⟩
    exact (op.recipients_positive_iff divides shares.computed).mp shares.positive
  · intro covers
    have computed := op.assignments_eq divides
    refine ⟨divides.tree, divides.once, divides.acyclic, _, computed, ?_, ?_, ?_, ?_⟩
    · exact op.recipients_symbols divides computed
    · exact (op.recipients_positive_iff divides computed).mpr covers
    · exact op.recipients_total divides computed
    · intro state next applied
      obtain ⟨others, award, created⟩ := op.apply_created applied
      have same : others = _ := Except.ok.inj (created.computed.symm.trans computed)
      rw [created.result, same]

/-- An award of 100 of which 50 go to Bob, who passes on as much as is given. -/
def Sample.passedOn (amount : Int) : CreateAwardOperation where
  awardNumber := "award"
  fundingOpportunityNumber := "grant"
  award := ⟨100, usdSymbol⟩
  awardee := "alice"
  researchExternalId := "5a1f000000000000000000000000000000000001"
  universityExternalId := "5a1f000000000000000000000000000000000002"
  universityOverhead := ⟨500, 2⟩
  subawardees := [⟨"first", ⟨50, usdSymbol⟩, "bob", "alice", "5a1f000000000000000000000000000000000001"⟩,
    ⟨"second", ⟨amount, usdSymbol⟩, "carol", "bob", "5a1f000000000000000000000000000000000001"⟩,
    ⟨"third", ⟨5, usdSymbol⟩, "dave", "carol", "5a1f000000000000000000000000000000000001"⟩]
  creator := "alice"

theorem Sample.passedOn_sharesOut : (Sample.passedOn 20).SharesOut :=
  (createAward_sharesOut_iff (Sample.passedOn 20) (by decide +kernel)).mpr (by decide +kernel)

/-- Bob gets 50 and passes 60 on: the part that is computed for Bob is negative. -/
theorem Sample.passedOn_fails : (Sample.passedOn 60).validate = .ok () ∧
    ¬ (Sample.passedOn 60).SharesOut := by
  have valid : (Sample.passedOn 60).validate = .ok () := by decide +kernel
  refine ⟨valid, fun shared => ?_⟩
  obtain ⟨parts, shares⟩ := shared.shares
  have divides := CreateAwardOperation.divides_of_validate valid
  have covers := (CreateAwardOperation.recipients_positive_iff divides shares.computed).mp
    shares.positive
  exact absurd covers (by decide +kernel)

end DeipChain.Ledger
