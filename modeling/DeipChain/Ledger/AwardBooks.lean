import DeipChain.Ledger.Awards

/-!
# Awards in the books

The parts of an award add up: what the main awardee and the subawardees keep and the
fee of the university are the award. So an approved award moves its amount out of the
funding opportunity. The payment of a withdrawal request lowers the recorded supply of
the asset of the award, although nobody's balance of that asset is lowered.
-/
namespace DeipChain.Ledger

open DeipChain.Result DeipChain.Table

variable {kept : Aspect → Prop} {state next : State}

/-! ## The parts of an award -/

/-- What a subaward counts for among those of a source. -/
def Subawardee.from (source : Name) (subaward : Subawardee) : Int :=
  if subaward.source = source then subaward.subaward.amount else 0

theorem subawardsFrom_ok_iff {subawardees : List Subawardee} {source : Name} {symbol : AssetSymbol}
    {sum : Asset} :
    subawardsFrom subawardees source symbol = .ok sum ↔
      (∀ subaward ∈ subawardees, subaward.source = source → symbol = subaward.subaward.symbol) ∧
        sum = ⟨total (Subawardee.from source) subawardees, symbol⟩ := by
  have general : ∀ (rows : List Subawardee) (start : Int),
      rows.foldlM (fun sum next =>
        if next.source = source then Asset.add sum next.subaward else return sum)
        (Asset.mk start symbol) = .ok sum ↔
      (∀ subaward ∈ rows, subaward.source = source → symbol = subaward.subaward.symbol) ∧
        sum = ⟨start + total (Subawardee.from source) rows, symbol⟩ := by
    intro rows
    induction rows with
    | nil =>
      intro start
      rw [List.foldlM_nil, pure_ok_iff, total_nil, add_zero]
      exact ⟨fun same => ⟨fun _ member => absurd member List.not_mem_nil, same.symm⟩,
        fun ⟨_, same⟩ => same.symm⟩
    | cons row rows hypothesis =>
      intro start
      rw [List.foldlM_cons, bind_ok_iff, List.forall_mem_cons, total_cons]
      by_cases own : row.source = source
      · simp only [own, if_true, Asset.add_ok_iff, Subawardee.from, forall_const]
        constructor
        · rintro ⟨_, ⟨same, rfl⟩, later⟩
          obtain ⟨symbols, rfl⟩ := (hypothesis _).mp later
          exact ⟨⟨same, symbols⟩, by simp [add_assoc]⟩
        · rintro ⟨⟨same, symbols⟩, rfl⟩
          refine ⟨_, ⟨same, rfl⟩, (hypothesis _).mpr ⟨symbols, ?_⟩⟩
          simp [add_assoc]
      · simp only [own, if_false, pure_ok_iff, Subawardee.from, false_implies, true_and, zero_add,
          exists_eq_left']
        exact hypothesis start
  have shifted := general subawardees 0
  rw [zero_add] at shifted
  exact shifted

/-- What a valid award grants. -/
structure CreateAwardOperation.Divides (op : CreateAwardOperation) : Prop where
  positive : ∀ subaward ∈ op.subawardees, 0 < subaward.subaward.amount
  symbols : ∀ subaward ∈ op.subawardees, subaward.subaward.symbol = op.award.symbol
  distinct : (op.subawardees.map Subawardee.subawardee).Nodup
  apart : op.awardee ∉ op.subawardees.map Subawardee.subawardee
  sourced : ∀ subaward ∈ op.subawardees, subaward.source = op.awardee ∨
    subaward.source ∈ op.subawardees.map Subawardee.subawardee
  covered : ∀ subaward ∈ op.subawardees, subaward.source ≠ op.awardee →
    total (Subawardee.from subaward.subawardee) op.subawardees < subaward.subaward.amount
  main : total (Subawardee.from op.awardee) op.subawardees +
    (universityFee op.award op.universityOverhead).amount < op.award.amount

theorem nodup_of_countP {subawardees : List Subawardee}
    (once : ∀ subaward ∈ subawardees,
      (subawardees.countP fun other => subaward.subawardee == other.subawardee) = 1) :
    (subawardees.map Subawardee.subawardee).Nodup := by
  rw [List.nodup_iff_count_le_one]
  intro name
  by_cases listed : name ∈ subawardees.map Subawardee.subawardee
  · obtain ⟨subaward, member, rfl⟩ := List.mem_map.mp listed
    have counted := once subaward member
    rw [List.count, List.countP_map]
    refine le_of_eq (Eq.trans ?_ counted)
    apply List.countP_congr
    intro other _
    rw [Function.comp_apply, beq_iff_eq, beq_iff_eq, eq_comm]
  · rw [List.count_eq_zero_of_not_mem listed]
    exact Nat.zero_le 1

theorem CreateAwardOperation.divides_of_validate {op : CreateAwardOperation}
    (valid : op.validate = .ok ()) : op.Divides := by
  simp only [validate, validateAwardees, bind_ok_iff, require_ok_iff, subawardsFrom_ok_iff,
    Asset.add_ok_iff] at valid
  obtain ⟨_, _, _, _, _, _, top, ⟨_, rfl⟩, spent, ⟨_, rfl⟩, covers, compared, _, rfl, _, apart, _, _,
    each⟩ := valid
  have each := forM_ok_iff.mp each
  simp only [validateSubaward, bind_ok_iff, require_ok_iff] at each
  constructor
  · exact fun subaward member => (each subaward member).choose_spec.1
  · intro subaward member
    obtain ⟨_, _, _, symbol, _⟩ := each subaward member
    exact symbol
  · apply nodup_of_countP
    intro subaward member
    obtain ⟨_, _, _, _, _, once, _⟩ := each subaward member
    exact once
  · intro listed
    obtain ⟨subaward, member, same⟩ := List.mem_map.mp listed
    exact apart subaward member same
  · intro subaward member
    obtain ⟨_, _, _, _, _, _, _, _, chained⟩ := each subaward member
    unfold validateChain at chained
    split at chained
    · simp only [bind_ok_iff, require_ok_iff] at chained
      obtain ⟨_, ⟨other, listed, same⟩, _⟩ := chained
      exact .inr (List.mem_map.mpr ⟨other, listed, same.symm⟩)
    · rename_i direct
      exact .inl (not_not.mp direct)
  · intro subaward member indirect
    obtain ⟨_, _, _, _, _, _, _, _, chained⟩ := each subaward member
    rw [validateChain, if_pos indirect] at chained
    simp only [bind_ok_iff, require_ok_iff, subawardsFrom_ok_iff] at chained
    obtain ⟨_, _, _, ⟨_, rfl⟩, _, above, rfl⟩ := chained
    exact (Asset.above_iff.mp above).2
  · exact (Asset.above_iff.mp compared).2

/-- What a subawardee keeps. -/
def CreateAwardOperation.keeps (op : CreateAwardOperation) (subaward : Subawardee) : Asset :=
  ⟨subaward.subaward.amount - total (Subawardee.from subaward.subawardee) op.subawardees,
    op.award.symbol⟩

/-- What the main awardee keeps. -/
def CreateAwardOperation.mainKeeps (op : CreateAwardOperation) : Asset :=
  ⟨op.award.amount - (universityFee op.award op.universityOverhead).amount -
    total (Subawardee.from op.awardee) op.subawardees, op.award.symbol⟩

namespace CreateAwardOperation

variable {op : CreateAwardOperation}

theorem assignments_eq (divides : op.Divides) :
    op.assignments = .ok ((op.awardee, op.mainKeeps) ::
      op.subawardees.map fun subaward => (subaward.subawardee, op.keeps subaward)) := by
  have summed : ∀ source, subawardsFrom op.subawardees source op.award.symbol =
      .ok ⟨total (Subawardee.from source) op.subawardees, op.award.symbol⟩ := by
    intro source
    rw [subawardsFrom_ok_iff]
    exact ⟨fun subaward member _ => (divides.symbols subaward member).symm, rfl⟩
  have parts : op.subawardees.mapM op.ownPart =
      .ok (op.subawardees.map fun subaward => (subaward.subawardee, op.keeps subaward)) := by
    apply mapM_ok
    intro subaward member
    simp only [ownPart, summed, bind_ok_iff, pure_ok_iff, Except.ok.injEq, exists_eq_left',
      Asset.sub_ok_iff]
    have symbol := divides.symbols subaward member
    exact ⟨_, ⟨symbol, rfl⟩, by rw [keeps, symbol]⟩
  simp only [assignments, summed, parts, bind_ok_iff, pure_ok_iff, Except.ok.injEq, exists_eq_left',
    Asset.sub_ok_iff]
  exact ⟨_, ⟨rfl, rfl⟩, _, ⟨rfl, rfl⟩, rfl⟩

theorem assigned_eq (divides : op.Divides) {parts : List (Name × Asset)}
    (computed : op.assignments = .ok parts) :
    assigned parts op.awardee = op.mainKeeps ∧
      ∀ subaward ∈ op.subawardees, assigned parts subaward.subawardee = op.keeps subaward := by
  rw [assignments_eq divides, Except.ok.injEq] at computed
  have distinct : (parts.reverse.map Prod.fst).Nodup := by
    rw [← computed, List.map_reverse, List.nodup_reverse, List.map_cons, List.map_map, List.nodup_cons]
    exact ⟨divides.apart, divides.distinct⟩
  have looks : ∀ entry ∈ parts, assigned parts entry.1 = entry.2 := by
    intro entry member
    rw [assigned, find?_of_nodup distinct (List.mem_reverse.mpr member)]
    rfl
  subst computed
  refine ⟨looks _ List.mem_cons_self, fun subaward member => ?_⟩
  exact looks _ (List.mem_cons_of_mem _ (List.mem_map_of_mem member))

/-- Each subaward is passed on by the main awardee or by one subawardee. -/
theorem total_passed (divides : op.Divides) :
    total (fun subaward => total (Subawardee.from subaward.subawardee) op.subawardees)
      op.subawardees + total (Subawardee.from op.awardee) op.subawardees =
      total (fun subaward => subaward.subaward.amount) op.subawardees := by
  rw [total_comm, ← total_add]
  apply total_congr
  intro subaward member
  have flipped : ∀ other, Subawardee.from other subaward =
      if other = subaward.source then subaward.subaward.amount else 0 := by
    intro other
    simp only [Subawardee.from, eq_comm]
  simp only [flipped]
  by_cases direct : op.awardee = subaward.source
  · have none : total (fun other : Subawardee =>
        if other.subawardee = subaward.source then subaward.subaward.amount else 0)
        op.subawardees = 0 := by
      apply total_eq_zero
      intro other listed
      apply if_neg
      intro same
      exact divides.apart (List.mem_map.mpr ⟨other, listed, same.trans direct.symm⟩)
    rw [none, if_pos direct, zero_add]
  · have listed := (divides.sourced subaward member).resolve_left (Ne.symm direct)
    rw [total_ite_key _ divides.distinct listed, if_neg direct, add_zero]

/-- The parts of an award and the fee of the university are the award. -/
theorem total_kept (divides : op.Divides) :
    op.mainKeeps.amount + total (fun subaward => (op.keeps subaward).amount) op.subawardees =
      op.award.amount - (universityFee op.award op.universityOverhead).amount := by
  have passed := total_passed divides
  have split := total_add (fun subaward => (op.keeps subaward).amount)
    (fun subaward => total (Subawardee.from subaward.subawardee) op.subawardees) op.subawardees
  simp only [keeps, sub_add_cancel] at split
  simp only [mainKeeps, keeps]
  omega

/-! ## The creation of an award -/

/-- The recipients of a new award. -/
def recipients (op : CreateAwardOperation) (parts : List (Name × Asset)) : List AwardRecipient :=
  op.mainRecipient parts :: op.subawardees.map (op.subRecipient parts)

theorem createSubawards_effect {subawardees : List Subawardee} {parts : List (Name × Asset)}
    {start after : List AwardRecipient}
    (created : subawardees.foldlM (op.createSubaward state parts) start = .ok after) :
    after = start ++ subawardees.map (op.subRecipient parts) ∧
      (∀ subaward ∈ subawardees, state.accountExists subaward.subawardee = true) ∧
      ((start.map AwardRecipient.key).Nodup → (after.map AwardRecipient.key).Nodup) := by
  induction subawardees generalizing start with
  | nil =>
    rw [List.foldlM_nil, pure_ok_iff] at created
    subst created
    exact ⟨(List.append_nil _).symm, fun _ member => absurd member List.not_mem_nil, id⟩
  | cons subaward rest hypothesis =>
    rw [List.foldlM_cons, bind_ok_iff] at created
    obtain ⟨middle, first, others⟩ := created
    simp only [createSubaward, createAwardRecipient, bind_ok_iff, require_ok_iff,
      pure_ok_iff] at first
    obtain ⟨_, known, _, _, _, _, _, _, _, fresh, rfl⟩ := first
    obtain ⟨rfl, allKnown, keys⟩ := hypothesis others
    refine ⟨by simp, List.forall_mem_cons.mpr ⟨known, allKnown⟩, fun distinct => keys ?_⟩
    exact nodup_append_fresh distinct fresh

/-- What a new award adds to the tables. -/
structure Created (op : CreateAwardOperation) (parts : List (Name × Asset)) (award : Award)
    (state next : State) : Prop where
  computed : op.assignments = .ok parts
  number : award.awardNumber = op.awardNumber
  amount : award.amount = op.award
  overhead : award.universityOverhead = op.universityOverhead
  pending : award.status = .pending
  funded : ∃ opportunity, state.getFundingOpportunity award.fundingOpportunityNumber =
    .ok opportunity ∧ op.award.symbol = opportunity.amount.symbol
  university : ∃ group ∈ state.groups, group.id = award.universityId
  fresh : ∀ other ∈ state.awards, other.awardNumber ≠ op.awardNumber
  known : ∀ recipient ∈ op.recipients parts, state.Known recipient.awardee
  keys : (state.recipients.map AwardRecipient.key).Nodup →
    ((state.recipients ++ op.recipients parts).map AwardRecipient.key).Nodup
  result : next = { state with
    awards := state.awards ++ [award]
    recipients := state.recipients ++ op.recipients parts }

theorem apply_created (applied : op.apply state = .ok next) :
    ∃ parts award, op.Created parts award state next := by
  simp only [apply, createAward, createAwardRecipient, bind_ok_iff, require_ok_iff,
    pure_ok_iff] at applied
  obtain ⟨_, _, _, awardeeKnown, _, _, _, _, _, _, opportunity, funded, _, symbol, _, _, _, _,
    organization, _, _, _, _, _, _, _, university, founded, parts, computed, _, ⟨_, fresh, rfl⟩, _,
    ⟨_, freshMain, rfl⟩, _, created, rfl⟩ := applied
  obtain ⟨rfl, known, keys⟩ := createSubawards_effect created
  refine ⟨parts, ⟨op.fundingOpportunityNumber, op.awardNumber, op.awardee, op.award, university.id,
    op.universityOverhead, .pending⟩, computed, rfl, rfl, rfl, rfl, ⟨opportunity, funded, symbol⟩,
    ⟨university, List.mem_of_find?_eq_some (expect_ok_iff.mp founded), rfl⟩, fresh, ?_, ?_, ?_⟩
  · refine List.forall_mem_cons.mpr ⟨State.known_of_exists awardeeKnown, ?_⟩
    intro recipient member
    obtain ⟨subaward, listed, rfl⟩ := List.mem_map.mp member
    exact State.known_of_exists (known subaward listed)
  · intro distinct
    have all := keys (nodup_append_fresh distinct freshMain)
    simpa [recipients] using all
  · simp [recipients]

/-- The recipients of a new award share what the university leaves of it. -/
theorem total_recipients {parts : List (Name × Asset)} (divides : op.Divides)
    (computed : op.assignments = .ok parts) (symbol : AssetSymbol) :
    total (AwardRecipient.toward op.awardNumber symbol) (op.recipients parts) =
      op.award.under symbol - (universityFee op.award op.universityOverhead).under symbol := by
  obtain ⟨main, subs⟩ := assigned_eq divides computed
  have parted := total_kept divides
  have mapped : total (AwardRecipient.toward op.awardNumber symbol)
      (op.subawardees.map (op.subRecipient parts)) =
      total (fun subaward => (op.keeps subaward).under symbol) op.subawardees := by
    simp only [total, List.map_map]
    apply congrArg
    apply List.map_congr_left
    intro subaward member
    simp [AwardRecipient.toward, subRecipient, subs subaward member]
  rw [recipients, total_cons, mapped]
  simp only [AwardRecipient.toward, mainRecipient, main, if_true, Asset.under, universityFee, keeps,
    mainKeeps] at parted ⊢
  by_cases own : op.award.symbol = symbol
  · simp only [own, if_true]
    omega
  · simp only [own, if_false]
    rw [total_eq_zero fun _ _ => rfl]
    omega

end CreateAwardOperation

/-- The tables of awards stay in order when an award with its recipients is added. -/
theorem AwardsKept.append {awards : List Award} {recipients added : List AwardRecipient}
    {award : Award} (before : AwardsKept awards recipients)
    (fresh : ∀ other ∈ awards, other.awardNumber ≠ award.awardNumber)
    (own : ∀ recipient ∈ added, recipient.awardNumber = award.awardNumber)
    (shared : ∀ symbol, total (AwardRecipient.toward award.awardNumber symbol) added =
      award.amount.under symbol -
        (universityFee award.amount award.universityOverhead).under symbol) :
    AwardsKept (awards ++ [award]) (recipients ++ added) where
  numbers := nodup_append_fresh before.numbers fresh
  shared := by
    apply forall_append_singleton
    · intro other member symbol
      have none : total (AwardRecipient.toward other.awardNumber symbol) added = 0 := by
        apply total_eq_zero
        intro recipient listed
        apply if_neg
        intro same
        exact fresh other member (same.symm.trans (own recipient listed))
      rw [total_append, none, add_zero]
      exact before.shared other member symbol
    · intro symbol
      have none : total (AwardRecipient.toward award.awardNumber symbol) recipients = 0 := by
        apply total_eq_zero
        intro recipient listed
        apply if_neg
        intro same
        obtain ⟨other, member, number⟩ := List.mem_map.mp (before.known recipient listed)
        exact fresh other member (number.trans same)
      rw [total_append, none, zero_add]
      exact shared symbol
  known recipient member := by
    rw [List.map_append]
    rcases List.mem_append.mp member with old | new
    · exact List.mem_append_left _ (before.known recipient old)
    · exact List.mem_append_right _ (List.mem_singleton.mpr (own recipient new))

/-- Rewriting the tables of awards. -/
theorem posted_awards {awards : List Award} {recipients : List AwardRecipient}
    {requests : List WithdrawalRequest} (gives : ∀ old olds, ¬ kept (.awarded old olds))
    (sound : AwardsKept state.awards state.recipients → AwardsKept awards recipients)
    (known : Rooted state → (∀ recipient ∈ recipients, state.Known recipient.awardee) ∧
      ∀ request ∈ requests, state.Known request.requester) :
    Posted kept (fun _ => 0) state { state with awards, recipients, requests } where
  sound before := { before with awards := sound before.awards }
  closed _ _ member _ := member
  surplus _ _ := (add_zero _).symm
  holds _ aspect keeps before := by
    cases aspect with
    | reserved => exact before
    | counted => exact { before with elected := before.elected }
    | rated => exact { before with tokens := before.tokens }
    | rooted =>
      exact { before with recipients := (known before).1, requests := (known before).2 }
    | coreOnly => exact { before with vestings := before.vestings }
    | awarded old olds => exact absurd keeps (gives old olds)

theorem CreateAwardOperation.apply_posted {op : CreateAwardOperation}
    (gives : ∀ old olds, ¬ kept (.awarded old olds)) (valid : op.validate = .ok ())
    (applied : op.apply state = .ok next) : Posted kept (fun _ => 0) state next := by
  have divides := divides_of_validate valid
  obtain ⟨parts, award, created⟩ := apply_created applied
  rw [created.result]
  apply posted_awards gives
  · intro before
    apply before.append
    · exact created.number ▸ created.fresh
    · rw [created.number]
      refine List.forall_mem_cons.mpr ⟨rfl, fun recipient member => ?_⟩
      obtain ⟨subaward, _, rfl⟩ := List.mem_map.mp member
      rfl
    · rw [created.number, created.amount, created.overhead]
      exact total_recipients divides created.computed
  · intro rooted
    refine ⟨fun recipient member => ?_, rooted.requests⟩
    rcases List.mem_append.mp member with old | new
    · exact rooted.recipients recipient old
    · exact created.known recipient new

/-! ## The decision on an award -/

/-- The columns of the tables that `AwardsKept` is about. -/
def Award.terms (award : Award) : Name × Asset × Percent :=
  (award.awardNumber, award.amount, award.universityOverhead)

def AwardRecipient.part (recipient : AwardRecipient) : Name × Asset :=
  (recipient.awardNumber, recipient.totalAmount)

theorem AwardsKept.of_columns {awards awards' : List Award}
    {recipients recipients' : List AwardRecipient} (before : AwardsKept awards recipients)
    (terms : awards'.map Award.terms = awards.map Award.terms)
    (parts : recipients'.map AwardRecipient.part = recipients.map AwardRecipient.part) :
    AwardsKept awards' recipients' := by
  have numbers : awards'.map Award.awardNumber = awards.map Award.awardNumber := by
    have columns := congrArg (List.map Prod.fst) terms
    rw [List.map_map, List.map_map] at columns
    exact columns
  have sums : ∀ number symbol, total (AwardRecipient.toward number symbol) recipients' =
      total (AwardRecipient.toward number symbol) recipients := by
    intro number symbol
    have columns := congrArg (fun column => (List.map (fun part : Name × Asset =>
      if part.1 = number then part.2.under symbol else 0) column).sum) parts
    simp only [List.map_map] at columns
    exact columns
  constructor
  · rw [numbers]
    exact before.numbers
  · intro award member symbol
    have listed : award.terms ∈ awards.map Award.terms := terms ▸ List.mem_map_of_mem member
    obtain ⟨old, oldMember, same⟩ := List.mem_map.mp listed
    simp only [Award.terms, Prod.mk.injEq] at same
    obtain ⟨number, amount, overhead⟩ := same
    rw [sums, ← number, ← amount, ← overhead]
    exact before.shared old oldMember symbol
  · intro recipient member
    have listed : recipient.part ∈ recipients.map AwardRecipient.part :=
      parts ▸ List.mem_map_of_mem member
    obtain ⟨old, oldMember, same⟩ := List.mem_map.mp listed
    have number : old.awardNumber = recipient.awardNumber := congrArg Prod.fst same
    rw [numbers, ← number]
    exact before.known old oldMember

theorem updateAwardStatus_terms (awards : List Award) (number : Name) (status : AwardStatus) :
    (updateAwardStatus awards number status).map Award.terms = awards.map Award.terms :=
  map_modifyFirst fun _ => rfl

/-- A new status of the recipients of an award does not show in their other columns. -/
theorem updateRecipientsStatus_map {A : Type} {field : AwardRecipient → A}
    (same : ∀ recipient status, field { recipient with status } = field recipient)
    (recipients : List AwardRecipient) (number : Name) (status : RecipientStatus) :
    (updateRecipientsStatus recipients number status).map field = recipients.map field := by
  rw [updateRecipientsStatus, List.map_map]
  apply List.map_congr_left
  intro recipient _
  rw [Function.comp_apply]
  split
  · exact same recipient status
  · rfl

theorem updateRecipientsStatus_known {recipients : List AwardRecipient}
    (known : ∀ recipient ∈ recipients, state.Known recipient.awardee) (number : Name)
    (status : RecipientStatus) :
    ∀ recipient ∈ updateRecipientsStatus recipients number status, state.Known recipient.awardee := by
  intro recipient member
  have listed : recipient.awardee ∈ recipients.map AwardRecipient.awardee := by
    rw [← updateRecipientsStatus_map (fun _ _ => rfl) recipients number status]
    exact List.mem_map_of_mem member
  obtain ⟨old, oldMember, same⟩ := List.mem_map.mp listed
  exact same ▸ known old oldMember

theorem payRecipients_moved (may : Name → AssetSymbol → Prop) {assets : List AssetObject}
    {balances after : List Balance} {recipients : List AwardRecipient}
    (owners : ∀ recipient ∈ recipients, ∀ symbol, may recipient.awardee symbol)
    (paid : payRecipients assets balances recipients = .ok after) :
    Moved may (fun symbol => total (fun recipient => recipient.totalAmount.under symbol) recipients)
      balances after := by
  unfold payRecipients at paid
  induction recipients generalizing balances with
  | nil =>
    rw [List.foldlM_nil, pure_ok_iff] at paid
    subst paid
    exact Moved.refl may balances
  | cons recipient rest hypothesis =>
    rw [List.foldlM_cons, bind_ok_iff] at paid
    obtain ⟨middle, first, others⟩ := paid
    have head := adjustAccountBalance_moved may
      (.inl (owners recipient List.mem_cons_self recipient.totalAmount.symbol)) first
    have tail := hypothesis (fun other member => owners other (List.mem_cons_of_mem _ member)) others
    refine (head.trans tail).congr fun symbol => ?_
    rw [total_cons]

theorem total_filter_toward (recipients : List AwardRecipient) (number : Name)
    (symbol : AssetSymbol) :
    total (fun recipient => recipient.totalAmount.under symbol)
      (recipients.filter fun recipient => recipient.awardNumber == number) =
      total (AwardRecipient.toward number symbol) recipients := by
  induction recipients with
  | nil => rfl
  | cons recipient rest hypothesis =>
    by_cases own : recipient.awardNumber = number
    · simp [AwardRecipient.toward, own, hypothesis]
    · simp [AwardRecipient.toward, own, hypothesis]

theorem awardToDecide_award {op : AwardDecision} {decided : String}
    {result : Award × FundingOpportunity} (found : awardToDecide state op decided = .ok result) :
    result.1 ∈ state.awards ∧ result.1.awardNumber = op.awardNumber := by
  simp only [awardToDecide, State.getAward, bind_ok_iff, expect_ok_iff, pure_ok_iff] at found
  obtain ⟨_, _, _, _, award, got, _, _, _, _, _, _, rfl⟩ := found
  exact ⟨List.mem_of_find?_eq_some got, by simpa using List.find?_some got⟩

/-- An approved award moves its amount from the funding opportunity to the university and
    the recipients. -/
theorem approveAward_posted {op : AwardDecision} (gives : ∀ old olds, ¬ kept (.awarded old olds))
    (spends : ¬ kept .coreOnly) (approved : approveAward state op = .ok next) :
    Posted kept (fun _ => 0) state next := by
  simp only [approveAward, bind_ok_iff, pure_ok_iff] at approved
  obtain ⟨⟨award, opportunity⟩, found, university, got, afterFee, fee, balances, paid, opportunities,
    adjusted, rfl⟩ := approved
  obtain ⟨listed, number⟩ := awardToDecide_award found
  have creator : ∀ symbol, grounds state university.creator symbol := fun _ rooted =>
    (rooted.groups university (List.mem_of_find?_eq_some (expect_ok_iff.mp got))).2
  have owners : ∀ recipient ∈ state.recipients.filter
      (fun recipient => recipient.awardNumber == op.awardNumber),
      ∀ symbol, grounds state recipient.awardee symbol := fun recipient member _ rooted =>
    rooted.recipients recipient (List.mem_of_mem_filter member)
  have moved := (adjustAccountBalance_moved (grounds state) (.inl (creator _)) fee).trans
    (payRecipients_moved (grounds state) owners paid)
  have spent : Posted kept award.amount.neg.under { state with balances } _ :=
    adjustFundingOpportunitySupply_posted spends adjusted
  have settled : Posted kept (fun _ => 0) { state with balances, opportunities } { state with
      balances
      opportunities
      recipients := updateRecipientsStatus state.recipients op.awardNumber .confirmed
      awards := updateAwardStatus state.awards op.awardNumber .approved } := by
    apply posted_awards gives
    · intro before
      apply before.of_columns (updateAwardStatus_terms _ _ _)
      exact updateRecipientsStatus_map (fun _ _ => rfl) _ _ _
    · intro rooted
      exact ⟨updateRecipientsStatus_known rooted.recipients _ _, rooted.requests⟩
  refine ((moved.posted.trans spent).trans settled).congr fun sound symbol => ?_
  have parts := sound.awards.shared award listed symbol
  rw [total_filter_toward, Asset.under_neg, ← number, parts]
  dsimp only
  omega

theorem rejectAward_posted {op : AwardDecision} (gives : ∀ old olds, ¬ kept (.awarded old olds))
    (rejected : rejectAward state op = .ok next) : Posted kept (fun _ => 0) state next := by
  simp only [rejectAward, bind_ok_iff, pure_ok_iff] at rejected
  obtain ⟨_, _, rfl⟩ := rejected
  apply posted_awards gives
  · intro before
    apply before.of_columns (updateAwardStatus_terms _ _ _)
    exact updateRecipientsStatus_map (fun _ _ => rfl) _ _ _
  · intro rooted
    exact ⟨updateRecipientsStatus_known rooted.recipients _ _, rooted.requests⟩

/-! ## Withdrawal requests -/

theorem CreateAwardWithdrawalRequestOperation.apply_posted
    {op : CreateAwardWithdrawalRequestOperation} (gives : ∀ old olds, ¬ kept (.awarded old olds))
    (applied : op.apply state = .ok next) : Posted kept (fun _ => 0) state next := by
  simp only [apply, createAwardWithdrawalRequest, bind_ok_iff, require_ok_iff, pure_ok_iff] at applied
  obtain ⟨_, exists_, _, _, award, _, _, _, _, _, _, _, recipient, _, _, _, _, _, remaining, _, _, _, _,
    _, _, ⟨_, _, rfl⟩, rfl⟩ := applied
  apply posted_awards gives
  · exact id
  · intro rooted
    exact ⟨rooted.recipients, forall_append_singleton rooted.requests (State.known_of_exists exists_)⟩

/-- A new status of a request moves nothing. -/
theorem updateAwardWithdrawalRequest_posted (kept : Aspect → Prop) (state : State)
    (gives : ∀ old olds, ¬ kept (.awarded old olds)) (request : WithdrawalRequest)
    (status : RequestStatus) :
    Posted kept (fun _ => 0) state { state with
      requests := updateAwardWithdrawalRequest state.requests request status } := by
  apply posted_awards gives
  · exact id
  · intro rooted
    exact ⟨rooted.recipients, forall_modifyFirst rooted.requests fun _ _ known => known⟩

theorem certifyAwardWithdrawalRequest_posted {op : RequestAction}
    (gives : ∀ old olds, ¬ kept (.awarded old olds))
    (certified : certifyAwardWithdrawalRequest state op = .ok next) :
    Posted kept (fun _ => 0) state next := by
  simp only [certifyAwardWithdrawalRequest, bind_ok_iff, pure_ok_iff] at certified
  obtain ⟨⟨request, recipient⟩, _, _, _, _, _, rfl⟩ := certified
  exact updateAwardWithdrawalRequest_posted kept state gives request .certified

theorem approveAwardWithdrawalRequest_posted {op : RequestAction}
    (gives : ∀ old olds, ¬ kept (.awarded old olds))
    (approved : approveAwardWithdrawalRequest state op = .ok next) :
    Posted kept (fun _ => 0) state next := by
  simp only [approveAwardWithdrawalRequest, bind_ok_iff, pure_ok_iff] at approved
  obtain ⟨⟨request, recipient⟩, _, _, _, _, _, rfl⟩ := approved
  exact updateAwardWithdrawalRequest_posted kept state gives request .approved

theorem rejectAwardWithdrawalRequest_posted {op : RequestAction}
    (gives : ∀ old olds, ¬ kept (.awarded old olds))
    (rejected : rejectAwardWithdrawalRequest state op = .ok next) :
    Posted kept (fun _ => 0) state next := by
  simp only [rejectAwardWithdrawalRequest, bind_ok_iff, pure_ok_iff] at rejected
  obtain ⟨⟨request, recipient⟩, _, _, _, _, _, _, _, rfl⟩ := rejected
  exact updateAwardWithdrawalRequest_posted kept state gives request .rejected

theorem Asset.issued_neg (asset : Asset) (symbol : AssetSymbol) :
    (Asset.mk (-asset.amount) asset.symbol).issued symbol = -asset.issued symbol := by
  unfold issued
  split
  · exact neg_zero.symm
  · exact under_neg asset symbol

/-- The request has the key that the operation names, and its requester is the recipient of
    the subaward that the operation names. -/
theorem requestToUpdate_found {op : RequestAction} {result : WithdrawalRequest × AwardRecipient}
    (got : requestToUpdate state op = .ok result) :
    state.requests.find? (fun request => request.key == (op.awardNumber, op.paymentNumber)) =
        some result.1 ∧
      state.recipients.find? (fun recipient =>
        recipient.key == (op.awardNumber, op.subawardNumber.getD op.awardNumber)) = some result.2 ∧
      result.2.awardee = result.1.requester := by
  simp only [requestToUpdate, getAwardWithdrawalRequest, getAwardRecipient, bind_ok_iff,
    expect_ok_iff, require_ok_iff, pure_ok_iff] at got
  obtain ⟨_, _, _, _, request, found, recipient, named, _, same, rfl⟩ := got
  exact ⟨found, named, same⟩

/-- A payment burns what the requester asked for in the recorded supply, and only there. -/
theorem payAwardWithdrawalRequest_posted {op : RequestAction}
    (gives : ∀ old olds, ¬ kept (.awarded old olds))
    (paid : payAwardWithdrawalRequest state op = .ok next) :
    ∃ request, state.requests.find? (fun request =>
        request.key == (op.awardNumber, op.paymentNumber)) = some request ∧
      Posted kept request.amount.issued state next := by
  simp only [payAwardWithdrawalRequest, adjustExpenses, bind_ok_iff, pure_ok_iff] at paid
  obtain ⟨⟨request, recipient⟩, got, _, _, opportunity, _, treasury, owned, _, _, _, _, _, _, _,
    ⟨expenses, _, rfl⟩, assets, burned, credited, first, balances, second, rfl⟩ := paid
  dsimp only at burned first second ⊢
  obtain ⟨found, _, _⟩ := requestToUpdate_found got
  refine ⟨request, found, ?_⟩
  have recorded := adjustAssetCurrentSupply_posted kept state burned
  have requester : ∀ symbol, grounds { state with assets } request.requester symbol :=
    fun _ rooted => rooted.requests request (List.mem_of_find?_eq_some found)
  have creator : ∀ symbol, grounds { state with assets } treasury.creator symbol := fun _ rooted =>
    (rooted.groups treasury (List.mem_of_find?_eq_some (expect_ok_iff.mp owned))).2
  have moved := (adjustAccountBalance_moved _ (.inl (requester _)) first).trans
    (adjustAccountBalance_moved _ (.inl (creator _)) second)
  have paid : Posted kept _ { state with assets } { state with assets, balances } := moved.posted
  refine ((recorded.trans paid).trans (posted_awards gives ?_ ?_)).congr fun _ symbol => ?_
  · intro before
    exact before.of_columns rfl (map_modifyFirst fun _ => rfl)
  · intro rooted
    exact ⟨forall_modifyFirst rooted.recipients fun _ _ known => known,
      forall_modifyFirst rooted.requests fun _ _ known => known⟩
  · rw [Asset.under_neg, Asset.issued_neg]
    omega

end DeipChain.Ledger
