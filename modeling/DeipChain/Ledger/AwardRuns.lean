import DeipChain.Ledger.Runs

/-!
# Awards over a run

A withdrawal request moves from one status to the next, and is paid once. What a
recipient has spent is the sum of the paid requests for its own subaward: an award has
each awardee once, so an operation that names another subaward fails. What is spent
stays within what the recipient gets, as long as no subaward is passed on beyond its
amount.
-/
namespace DeipChain.Ledger

open DeipChain.Result DeipChain.Table

variable {percentOf : Int → Int → Int} {genesis : GenesisState} {steps : List Step} {step : Step}
  {state next : State}

/-- The moves of a request. -/
def RequestStatus.moves : RequestStatus → RequestStatus → Bool
  | .pending, .certified | .certified, .approved | .approved, .paid => true
  | .pending, .rejected | .certified, .rejected => true
  | _, _ => false

/-- The subaward that a request was made against. -/
def WithdrawalRequest.subaward (request : WithdrawalRequest) : Name × Name :=
  (request.awardNumber, request.subawardNumber)

/-- What a request adds to the expenses of a subaward. -/
def WithdrawalRequest.paidFrom (subaward : Name × Name) (request : WithdrawalRequest) : Int :=
  if request.subaward = subaward ∧ request.status = .paid then request.amount.amount else 0

/-! ## What a step does to awards -/

/-- All that a step can do to recipients and requests. -/
inductive AwardStep (step : Step) (state next : State) : Prop where
  | framed (recipients : next.recipients = state.recipients)
      (requests : next.requests = state.requests)
  | created (op : CreateAwardOperation) (parts : List (Name × Asset)) (award : Award)
      (isCreation : step = .operation (.createAward op)) (divides : op.Divides) (created : op.Created parts award state next)
  | decided (number : Name) (status : RecipientStatus)
      (recipients : next.recipients = updateRecipientsStatus state.recipients number status)
      (requests : next.requests = state.requests)
  | requested (recipient : AwardRecipient) (request : WithdrawalRequest)
      (listed : recipient ∈ state.recipients) (own : recipient.key = request.subaward)
      (requester : recipient.awardee = request.requester) (pending : request.status = .pending)
      (fresh : ∀ other ∈ state.requests, other.key ≠ request.key)
      (recipients : next.recipients = state.recipients)
      (requests : next.requests = state.requests ++ [request])
  | moved (request : WithdrawalRequest) (status : RequestStatus)
      (found : state.requests.find? (fun other => other.key == request.key) = some request)
      (moves : request.status.moves status = true) (unpaid : status ≠ .paid)
      (recipients : next.recipients = state.recipients)
      (requests : next.requests = updateAwardWithdrawalRequest state.requests request status)
  | paid (recipient : AwardRecipient) (request : WithdrawalRequest)
      (found : state.requests.find? (fun other => other.key == request.key) = some request)
      (named : state.recipients.find? (fun other => other.key == recipient.key) = some recipient)
      (award : recipient.awardNumber = request.awardNumber)
      (requester : recipient.awardee = request.requester) (approved : request.status = .approved)
      (funded : request.amount.amount ≤ recipient.totalAmount.amount - recipient.totalExpenses.amount)
      (recipients : next.recipients =
        modifyFirst (fun other => other.key == recipient.key) (fun other =>
          { other with totalExpenses :=
              ⟨recipient.totalExpenses.amount + request.amount.amount,
                recipient.totalExpenses.symbol⟩ }) state.recipients)
      (requests : next.requests = updateAwardWithdrawalRequest state.requests request .paid)

/-- The request that an operation names, under its own key. -/
theorem requestToUpdate_own {op : RequestAction} {result : WithdrawalRequest × AwardRecipient}
    (got : requestToUpdate state op = .ok result) :
    state.requests.find? (fun other => other.key == result.1.key) = some result.1 ∧
      state.recipients.find? (fun other => other.key == result.2.key) = some result.2 ∧
      result.2.awardNumber = result.1.awardNumber ∧ result.2.awardee = result.1.requester := by
  obtain ⟨found, named, requester⟩ := requestToUpdate_found got
  have key : result.1.key = (op.awardNumber, op.paymentNumber) := by
    simpa using List.find?_some found
  have recipientKey : result.2.key = (op.awardNumber, op.subawardNumber.getD op.awardNumber) := by
    simpa using List.find?_some named
  refine ⟨by rw [key]; exact found, by rw [recipientKey]; exact named, ?_, requester⟩
  exact (congrArg Prod.fst recipientKey).trans (congrArg Prod.fst key).symm

/-- An operation that only moves the status of a request. -/
theorem AwardStep.of_update {op : RequestAction} {result : WithdrawalRequest × AwardRecipient}
    {status : RequestStatus} (got : requestToUpdate state op = .ok result)
    (moves : result.1.status.moves status = true) (unpaid : status ≠ .paid) :
    AwardStep step state { state with
      requests := updateAwardWithdrawalRequest state.requests result.1 status } :=
  .moved result.1 status (requestToUpdate_own got).1 moves unpaid rfl rfl

theorem CreateAwardWithdrawalRequestOperation.apply_awardStep
    {op : CreateAwardWithdrawalRequestOperation} (applied : op.apply state = .ok next) :
    AwardStep step state next := by
  simp only [apply, createAwardWithdrawalRequest, getAwardRecipient, bind_ok_iff, require_ok_iff,
    expect_ok_iff, pure_ok_iff] at applied
  obtain ⟨_, _, _, _, award, _, _, _, _, _, _, _, recipient, found, _, requester, _, _, remaining, _, _,
    _, _, _, _, ⟨_, fresh, rfl⟩, rfl⟩ := applied
  have key : recipient.key = (op.awardNumber, op.subawardNumber.getD op.awardNumber) := by
    simpa using List.find?_some found
  refine .requested recipient _ (List.mem_of_find?_eq_some found) ?_ ?_ rfl fresh rfl rfl
  · exact key
  · exact requester

theorem payAwardWithdrawalRequest_awardStep {op : RequestAction}
    (paid : payAwardWithdrawalRequest state op = .ok next) : AwardStep step state next := by
  simp only [payAwardWithdrawalRequest, adjustExpenses, bind_ok_iff, require_ok_iff, pure_ok_iff,
    Asset.add_ok_iff, Asset.sub_ok_iff] at paid
  obtain ⟨⟨request, recipient⟩, got, _, approved, opportunity, _, treasury, _, remaining, ⟨_, rfl⟩,
    funded, compared, _, enough, _, ⟨expenses, ⟨_, rfl⟩, rfl⟩, assets, _, credited, _, balances, _,
    rfl⟩ := paid
  obtain ⟨found, named, award, requester⟩ := requestToUpdate_own got
  obtain ⟨_, rfl⟩ := Asset.atLeast_ok_iff.mp compared
  have funded : request.amount.amount ≤
      recipient.totalAmount.amount - recipient.totalExpenses.amount := by
    simpa using enough
  exact .paid recipient request found named award requester approved funded rfl rfl

theorem Operation.awardStep {op : Operation} (sound : Sound state)
    (applied : op.apply percentOf state = .ok next) : AwardStep (.operation op) state next := by
  have still (fits : op.Fits (· = .awarded state.recipients state.requests)) :
      AwardStep (.operation op) state next := by
    obtain ⟨_, posted, _⟩ := Operation.apply_posted fits applied
    obtain ⟨recipients, requests⟩ := posted.holds sound _ rfl ⟨rfl, rfl⟩
    exact .framed recipients requests
  simp only [apply, bind_ok_iff] at applied
  obtain ⟨_, valid, _, _, evaluated⟩ := applied
  cases op with
  | createAward op =>
    obtain ⟨parts, award, created⟩ := CreateAwardOperation.apply_created evaluated
    exact .created op parts award rfl (CreateAwardOperation.divides_of_validate valid) created
  | approveAward op =>
    simp only [evaluate, Ledger.approveAward, bind_ok_iff, pure_ok_iff] at evaluated
    obtain ⟨_, _, _, _, _, _, _, _, _, _, rfl⟩ := evaluated
    exact .decided op.awardNumber .confirmed rfl rfl
  | rejectAward op =>
    simp only [evaluate, Ledger.rejectAward, bind_ok_iff, pure_ok_iff] at evaluated
    obtain ⟨_, _, rfl⟩ := evaluated
    exact .decided op.awardNumber .canceled rfl rfl
  | createAwardWithdrawalRequest op => exact op.apply_awardStep evaluated
  | certifyAwardWithdrawalRequest op =>
    simp only [evaluate, Ledger.certifyAwardWithdrawalRequest, bind_ok_iff, require_ok_iff,
      pure_ok_iff] at evaluated
    obtain ⟨⟨request, recipient⟩, got, _, pending, _, _, rfl⟩ := evaluated
    exact .of_update got (by rw [pending]; rfl) (by decide)
  | approveAwardWithdrawalRequest op =>
    simp only [evaluate, Ledger.approveAwardWithdrawalRequest, bind_ok_iff, require_ok_iff,
      pure_ok_iff] at evaluated
    obtain ⟨⟨request, recipient⟩, got, _, certified, _, _, rfl⟩ := evaluated
    exact .of_update got (by rw [certified]; rfl) (by decide)
  | rejectAwardWithdrawalRequest op =>
    simp only [evaluate, Ledger.rejectAwardWithdrawalRequest, bind_ok_iff, require_ok_iff,
      pure_ok_iff] at evaluated
    obtain ⟨⟨request, recipient⟩, got, _, open_, _, _, _, _, rfl⟩ := evaluated
    refine .of_update got ?_ (by decide)
    rcases open_ with pending | certified
    · rw [pending]
      rfl
    · rw [certified]
      rfl
  | payAwardWithdrawalRequest op => exact payAwardWithdrawalRequest_awardStep evaluated
  | _ => exact still (by simp [Fits])

/-- Award operations do one of these things, and other steps nothing. -/
theorem Step.awardStep (sound : Sound state) (applied : step.apply percentOf state = .ok next) :
    AwardStep step state next := by
  have still (fits : step.Fits (· = .awarded state.recipients state.requests) state) :
      AwardStep step state next := by
    obtain ⟨_, posted, _⟩ := Step.apply_posted fits applied
    obtain ⟨recipients, requests⟩ := posted.holds sound _ rfl ⟨rfl, rfl⟩
    exact .framed recipients requests
  cases step with
  | operation op => exact Operation.awardStep sound applied
  | processFunds => exact still ⟨nofun, nofun⟩
  | _ => exact still trivial

/-! ## Requests -/

/-- A later stage of a request. -/
def WithdrawalRequest.Later (request after : WithdrawalRequest) : Prop :=
  after = { request with status := after.status } ∧
    (after.status = request.status ∨ request.status.moves after.status = true)

theorem WithdrawalRequest.Later.refl (request : WithdrawalRequest) : request.Later request :=
  ⟨rfl, .inl rfl⟩

theorem updateAwardWithdrawalRequest_later {requests : List WithdrawalRequest}
    {request : WithdrawalRequest} {status : RequestStatus}
    (distinct : (requests.map WithdrawalRequest.key).Nodup)
    (found : requests.find? (fun other => other.key == request.key) = some request)
    (moves : request.status.moves status = true) :
    ∀ other ∈ requests,
      ∃ after ∈ updateAwardWithdrawalRequest requests request status, other.Later after := by
  intro other member
  by_cases same : other.key = request.key
  · have isRequest := List.inj_on_of_nodup_map distinct member (List.mem_of_find?_eq_some found) same
    subst isRequest
    exact ⟨_, (mem_modifyFirst_iff distinct found).mpr (.inr rfl), rfl, .inr moves⟩
  · exact ⟨other, (mem_modifyFirst_iff distinct found).mpr (.inl ⟨member, same⟩), .refl other⟩

/-- Requests only move on. -/
theorem AwardStep.later (stepped : AwardStep step state next)
    (distinct : (state.requests.map WithdrawalRequest.key).Nodup) :
    ∀ request ∈ state.requests, ∃ after ∈ next.requests, request.Later after := by
  intro request member
  cases stepped with
  | framed _ requests | decided _ _ _ requests =>
    exact ⟨request, requests ▸ member, .refl request⟩
  | created op parts award _ _ created =>
    rw [created.result]
    exact ⟨request, member, .refl request⟩
  | requested _ _ _ _ _ _ _ _ requests =>
    exact ⟨request, requests ▸ List.mem_append_left _ member, .refl request⟩
  | moved other status found moves _ _ requests =>
    rw [requests]
    exact updateAwardWithdrawalRequest_later distinct found moves request member
  | paid _ other found _ _ _ approved _ _ requests =>
    rw [requests]
    refine updateAwardWithdrawalRequest_later distinct found ?_ request member
    rw [approved]
    rfl

/-! ## Expenses -/

/-- The tables of recipients and requests. Each award has an awardee once, each request is
    from a recipient, and a recipient has spent what was paid for its own subaward. -/
structure Spent (recipients : List AwardRecipient) (requests : List WithdrawalRequest) :
    Prop where
  keys : (recipients.map AwardRecipient.key).Nodup
  payments : (requests.map WithdrawalRequest.key).Nodup
  awardees : ∀ one ∈ recipients, ∀ other ∈ recipients,
    one.awardNumber = other.awardNumber → one.awardee = other.awardee → one = other
  owned : ∀ request ∈ requests, ∃ recipient ∈ recipients,
    recipient.key = request.subaward ∧ recipient.awardee = request.requester
  expenses : ∀ recipient ∈ recipients, recipient.totalExpenses.amount =
    total (WithdrawalRequest.paidFrom recipient.key) requests

/-- What a recipient has, apart from its expenses and its status. -/
def AwardRecipient.identity (recipient : AwardRecipient) : Name × Name × Name × Asset :=
  (recipient.awardNumber, recipient.subawardNumber, recipient.awardee, recipient.totalAmount)

/-- Rewritten recipients that keep their identities. -/
theorem keys_of_identities {before after : List AwardRecipient}
    (same : after.map AwardRecipient.identity = before.map AwardRecipient.identity) :
    after.map AwardRecipient.key = before.map AwardRecipient.key := by
  have columns := congrArg (List.map fun identity : Name × Name × Name × Asset =>
    (identity.1, identity.2.1)) same
  simp only [List.map_map] at columns
  exact columns

theorem mem_of_identities {before after : List AwardRecipient} {recipient : AwardRecipient}
    (same : after.map AwardRecipient.identity = before.map AwardRecipient.identity)
    (member : recipient ∈ after) : ∃ old ∈ before, old.identity = recipient.identity :=
  List.mem_map.mp (same ▸ List.mem_map_of_mem member)

theorem AwardRecipient.identity_eq_iff {one other : AwardRecipient} :
    one.identity = other.identity ↔ one.key = other.key ∧ one.awardee = other.awardee ∧
      one.totalAmount = other.totalAmount := by
  simp only [identity, key, Prod.mk.injEq, and_assoc]

/-- Identities decide which recipients there are. -/
theorem Spent.rewrite {recipients after : List AwardRecipient}
    {requests updated : List WithdrawalRequest} (spent : Spent recipients requests)
    (same : after.map AwardRecipient.identity = recipients.map AwardRecipient.identity)
    (payments : (updated.map WithdrawalRequest.key).Nodup)
    (owned : ∀ request ∈ updated, ∃ old ∈ requests, old.subaward = request.subaward ∧
      old.requester = request.requester)
    (expenses : ∀ recipient ∈ after, recipient.totalExpenses.amount =
      total (WithdrawalRequest.paidFrom recipient.key) updated) : Spent after updated := by
  have keys : (after.map AwardRecipient.key).Nodup := keys_of_identities same ▸ spent.keys
  refine ⟨keys, payments, fun one member other listed award awardee => ?_,
    fun request member => ?_, expenses⟩
  · obtain ⟨first, firstMember, firstSame⟩ := mem_of_identities same member
    obtain ⟨second, secondMember, secondSame⟩ := mem_of_identities same listed
    rw [AwardRecipient.identity_eq_iff] at firstSame secondSame
    obtain ⟨firstKey, firstAwardee, _⟩ := firstSame
    obtain ⟨secondKey, secondAwardee, _⟩ := secondSame
    have equal := spent.awardees first firstMember second secondMember
      (((congrArg Prod.fst firstKey).trans award).trans (congrArg Prod.fst secondKey).symm)
      ((firstAwardee.trans awardee).trans secondAwardee.symm)
    exact List.inj_on_of_nodup_map keys member listed
      ((firstKey.symm.trans (congrArg _ equal)).trans secondKey)
  · obtain ⟨old, oldMember, subaward, requester⟩ := owned request member
    obtain ⟨recipient, listed, key, awardee⟩ := spent.owned old oldMember
    obtain ⟨kept, keptMember, identity⟩ := mem_of_identities same.symm listed
    rw [AwardRecipient.identity_eq_iff] at identity
    obtain ⟨keptKey, keptAwardee, _⟩ := identity
    exact ⟨kept, keptMember, (keptKey.trans key).trans subaward,
      (keptAwardee.trans awardee).trans requester⟩

theorem updateAwardWithdrawalRequest_keys (requests : List WithdrawalRequest)
    (request : WithdrawalRequest) (status : RequestStatus) :
    (updateAwardWithdrawalRequest requests request status).map WithdrawalRequest.key =
      requests.map WithdrawalRequest.key :=
  map_modifyFirst fun _ => rfl

theorem updateAwardWithdrawalRequest_owned {requests : List WithdrawalRequest}
    (request : WithdrawalRequest) (status : RequestStatus) :
    ∀ other ∈ updateAwardWithdrawalRequest requests request status,
      ∃ old ∈ requests, old.subaward = other.subaward ∧ old.requester = other.requester :=
  forall_modifyFirst (fun old member => ⟨old, member, rfl, rfl⟩) fun _ _ known => known

/-- A request that moves on counts for the expenses once it is paid. -/
theorem total_paidFrom_update {requests : List WithdrawalRequest} {request : WithdrawalRequest}
    {status : RequestStatus}
    (found : requests.find? (fun other => other.key == request.key) = some request)
    (unpaid : request.status ≠ .paid) (subaward : Name × Name) :
    total (WithdrawalRequest.paidFrom subaward)
      (updateAwardWithdrawalRequest requests request status) =
      total (WithdrawalRequest.paidFrom subaward) requests +
        if request.subaward = subaward ∧ status = .paid then request.amount.amount else 0 := by
  rw [updateAwardWithdrawalRequest, total_modifyFirst _ found]
  have nothing : WithdrawalRequest.paidFrom subaward request = 0 :=
    if_neg fun both => unpaid both.2
  rw [nothing, sub_zero]
  rfl

theorem RequestStatus.moves_unpaid {one other : RequestStatus} (moves : one.moves other = true) :
    one ≠ .paid := by
  rintro rfl
  cases other <;> cases moves

/-- The recipients of a new award have spent nothing, and have not asked for anything yet. -/
theorem Spent.create {op : CreateAwardOperation} {parts : List (Name × Asset)} {award : Award}
    (spent : Spent state.recipients state.requests) (sound : Sound state) (divides : op.Divides)
    (created : op.Created parts award state next) :
    Spent (state.recipients ++ op.recipients parts) state.requests := by
  have own : ∀ recipient ∈ op.recipients parts, recipient.awardNumber = op.awardNumber ∧
      recipient.totalExpenses.amount = 0 := by
    refine List.forall_mem_cons.mpr ⟨⟨rfl, rfl⟩, fun recipient member => ?_⟩
    obtain ⟨subaward, _, rfl⟩ := List.mem_map.mp member
    exact ⟨rfl, rfl⟩
  have apart : ∀ old ∈ state.recipients, old.awardNumber ≠ op.awardNumber := by
    intro old member same
    obtain ⟨other, listed, number⟩ := List.mem_map.mp (sound.awards.known old member)
    exact created.fresh other listed (number.trans same)
  have distinct : ((op.recipients parts).map AwardRecipient.awardee).Nodup := by
    rw [CreateAwardOperation.recipients, List.map_cons, List.map_map, List.nodup_cons]
    exact ⟨divides.apart, divides.distinct⟩
  refine ⟨created.keys spent.keys, spent.payments, ?_, ?_, ?_⟩
  · intro one member other listed number awardee
    rcases List.mem_append.mp member with old | new
    · rcases List.mem_append.mp listed with otherOld | otherNew
      · exact spent.awardees one old other otherOld number awardee
      · exact absurd (number.trans (own other otherNew).1) (apart one old)
    · rcases List.mem_append.mp listed with otherOld | otherNew
      · exact absurd (number.symm.trans (own one new).1) (apart other otherOld)
      · exact List.inj_on_of_nodup_map distinct new otherNew awardee
  · intro request member
    obtain ⟨recipient, listed, key⟩ := spent.owned request member
    exact ⟨recipient, List.mem_append_left _ listed, key⟩
  · intro recipient member
    rcases List.mem_append.mp member with old | new
    · exact spent.expenses recipient old
    · rw [(own recipient new).2]
      refine (total_eq_zero fun request listed => if_neg fun both => ?_).symm
      obtain ⟨owner, ownerListed, key, _⟩ := spent.owned request listed
      have number := congrArg Prod.fst (key.trans both.1)
      exact apart owner ownerListed (number.trans (own recipient new).1)

/-- A payment raises the expenses of the subaward that the request was made against. -/
theorem Spent.pay {recipients : List AwardRecipient} {requests : List WithdrawalRequest}
    {recipient : AwardRecipient} {request : WithdrawalRequest} (spent : Spent recipients requests)
    (found : requests.find? (fun other => other.key == request.key) = some request)
    (named : recipients.find? (fun other => other.key == recipient.key) = some recipient)
    (own : recipient.key = request.subaward) (approved : request.status = .approved) :
    Spent (modifyFirst (fun other => other.key == recipient.key) (fun other =>
      { other with totalExpenses := ⟨recipient.totalExpenses.amount + request.amount.amount,
          recipient.totalExpenses.symbol⟩ }) recipients)
      (updateAwardWithdrawalRequest requests request .paid) := by
  have unpaid : request.status ≠ .paid := by
    rw [approved]
    decide
  refine spent.rewrite (map_modifyFirst fun _ => rfl) ?_
    (updateAwardWithdrawalRequest_owned request .paid) ?_
  · rw [updateAwardWithdrawalRequest_keys]
    exact spent.payments
  · intro after member
    rw [total_paidFrom_update found unpaid]
    rcases (mem_modifyFirst_iff spent.keys named).mp member with ⟨kept, apart⟩ | rfl
    · rw [if_neg fun both => apart (own.trans both.1).symm, add_zero]
      exact spent.expenses after kept
    · change recipient.totalExpenses.amount + request.amount.amount =
        total (WithdrawalRequest.paidFrom recipient.key) requests +
          if request.subaward = recipient.key ∧ RequestStatus.paid = .paid then
            request.amount.amount else 0
      rw [if_pos ⟨own.symm, rfl⟩, spent.expenses recipient (List.mem_of_find?_eq_some named)]

/-- The recipient that a payment names is the one that the request was made against. -/
theorem Spent.recipient_eq {recipients : List AwardRecipient} {requests : List WithdrawalRequest}
    {recipient : AwardRecipient} {request : WithdrawalRequest} (spent : Spent recipients requests)
    (listed : recipient ∈ recipients) (member : request ∈ requests)
    (award : recipient.awardNumber = request.awardNumber)
    (requester : recipient.awardee = request.requester) : recipient.key = request.subaward := by
  obtain ⟨owner, ownerListed, key, awardee⟩ := spent.owned request member
  have number : owner.awardNumber = request.awardNumber := congrArg Prod.fst key
  rw [spent.awardees recipient listed owner ownerListed (award.trans number.symm)
    (requester.trans awardee.symm)]
  exact key

theorem AwardStep.spent (stepped : AwardStep step state next) (sound : Sound state)
    (spent : Spent state.recipients state.requests) : Spent next.recipients next.requests := by
  cases stepped with
  | framed recipients requests =>
    rw [recipients, requests]
    exact spent
  | created op parts award _ divides created =>
    rw [created.result]
    exact spent.create sound divides created
  | decided number status recipients requests =>
    rw [recipients, requests]
    refine spent.rewrite (updateRecipientsStatus_map (fun _ _ => rfl) _ _ _) spent.payments
      (fun request member => ⟨request, member, rfl, rfl⟩) fun recipient member => ?_
    obtain ⟨old, oldMember, rfl⟩ := List.mem_map.mp member
    split
    · exact spent.expenses old oldMember
    · exact spent.expenses old oldMember
  | requested recipient request listed own requester pending fresh recipients requests =>
    rw [recipients, requests]
    refine ⟨spent.keys, nodup_append_fresh spent.payments fresh, spent.awardees,
      forall_append_singleton spent.owned ⟨recipient, listed, own, requester⟩, ?_⟩
    intro other member
    have nothing : WithdrawalRequest.paidFrom other.key request = 0 := by
      refine if_neg fun both => ?_
      rw [pending] at both
      exact absurd both.2 (by decide)
    rw [total_append, total_cons, nothing, total_nil, add_zero, add_zero]
    exact spent.expenses other member
  | moved request status found moves unpaid recipients requests =>
    rw [recipients, requests]
    refine spent.rewrite rfl ?_ (updateAwardWithdrawalRequest_owned request status) ?_
    · rw [updateAwardWithdrawalRequest_keys]
      exact spent.payments
    · intro recipient member
      rw [total_paidFrom_update found (RequestStatus.moves_unpaid moves),
        if_neg fun both => unpaid both.2, add_zero]
      exact spent.expenses recipient member
  | paid recipient request found named award requester approved funded recipients requests =>
    rw [recipients, requests]
    have own := spent.recipient_eq (List.mem_of_find?_eq_some named)
      (List.mem_of_find?_eq_some found) award requester
    exact spent.pay found named own approved

/-- No subaward of the main awardee is passed on beyond its amount. -/
def CreateAwardOperation.coversDirect (op : CreateAwardOperation) : Bool :=
  op.subawardees.all fun subaward => subaward.source != op.awardee ||
    decide (total (Subawardee.from subaward.subawardee) op.subawardees ≤ subaward.subaward.amount)

def Step.coversDirect : Step → Bool
  | operation (.createAward op) => op.coversDirect
  | _ => true

/-- The recipients of a new award get no negative amount. -/
theorem CreateAwardOperation.recipients_nonneg {op : CreateAwardOperation}
    {parts : List (Name × Asset)} (divides : op.Divides) (computed : op.assignments = .ok parts)
    (covers : op.coversDirect = true) :
    ∀ recipient ∈ op.recipients parts, 0 ≤ recipient.totalAmount.amount := by
  obtain ⟨main, subs⟩ := assigned_eq divides computed
  refine List.forall_mem_cons.mpr ⟨?_, fun recipient member => ?_⟩
  · have kept := divides.main
    dsimp only [mainRecipient]
    rw [main]
    dsimp only [mainKeeps]
    omega
  · obtain ⟨subaward, listed, rfl⟩ := List.mem_map.mp member
    have bound : total (Subawardee.from subaward.subawardee) op.subawardees ≤
        subaward.subaward.amount := by
      by_cases direct : subaward.source = op.awardee
      · simpa [direct] using List.all_eq_true.mp covers subaward listed
      · exact (divides.covered subaward listed direct).le
    dsimp only [subRecipient]
    rw [subs subaward listed]
    dsimp only [keeps]
    omega

/-- No recipient has spent more than it gets. -/
def Within (recipients : List AwardRecipient) : Prop :=
  ∀ recipient ∈ recipients, recipient.totalExpenses.amount ≤ recipient.totalAmount.amount

theorem AwardStep.within (stepped : AwardStep step state next) (covers : step.coversDirect = true)
    (within : Within state.recipients) : Within next.recipients := by
  cases stepped with
  | framed recipients | requested _ _ _ _ _ _ _ recipients | moved _ _ _ _ _ recipients =>
    rw [recipients]
    exact within
  | created op parts award isCreation divides created =>
    rw [isCreation] at covers
    rw [created.result]
    intro recipient member
    rcases List.mem_append.mp member with old | new
    · exact within recipient old
    · have spent : recipient.totalExpenses.amount = 0 := by
        rcases List.mem_cons.mp new with rfl | sub
        · rfl
        · obtain ⟨subaward, _, rfl⟩ := List.mem_map.mp sub
          rfl
      rw [spent]
      exact CreateAwardOperation.recipients_nonneg divides created.computed covers recipient new
  | decided number status recipients =>
    rw [recipients]
    intro recipient member
    obtain ⟨old, oldMember, rfl⟩ := List.mem_map.mp member
    split
    · exact within old oldMember
    · exact within old oldMember
  | paid recipient request found named _ _ _ funded recipients =>
    rw [recipients]
    refine forall_modifyFirst within fun row hit _ => ?_
    have same : row = recipient := Option.some.inj (hit.symm.trans named)
    subst same
    dsimp only
    omega

/-- A recipient keeps its identity, and its expenses change only by the payment of a request
    for its own subaward. -/
def AwardRecipient.Pays (state next : State) (recipient after : AwardRecipient) : Prop :=
  after.identity = recipient.identity ∧ (after.totalExpenses = recipient.totalExpenses ∨
    ∃ request ∈ state.requests, request.subaward = recipient.key ∧ request.status = .approved ∧
      { request with status := .paid } ∈ next.requests ∧
      after.totalExpenses.amount = recipient.totalExpenses.amount + request.amount.amount)

theorem AwardStep.pays (stepped : AwardStep step state next)
    (spent : Spent state.recipients state.requests) :
    ∀ recipient ∈ state.recipients, ∃ after ∈ next.recipients, recipient.Pays state next after := by
  intro recipient member
  cases stepped with
  | framed recipients | requested _ _ _ _ _ _ _ recipients | moved _ _ _ _ _ recipients =>
    exact ⟨recipient, recipients ▸ member, rfl, .inl rfl⟩
  | created op parts award _ _ created =>
    rw [created.result]
    exact ⟨recipient, List.mem_append_left _ member, rfl, .inl rfl⟩
  | decided number status recipients =>
    rw [recipients]
    refine ⟨_, List.mem_map_of_mem member, ?_⟩
    split
    · exact ⟨rfl, .inl rfl⟩
    · exact ⟨rfl, .inl rfl⟩
  | paid payee request found named award requester approved _ recipients requests =>
    have listed := List.mem_of_find?_eq_some named
    have asked := List.mem_of_find?_eq_some found
    rw [recipients]
    by_cases same : recipient.key = payee.key
    · have isPayee := List.inj_on_of_nodup_map spent.keys member listed same
      subst isPayee
      refine ⟨_, (mem_modifyFirst_iff spent.keys named).mpr (.inr rfl), rfl, .inr ?_⟩
      refine ⟨request, asked, (spent.recipient_eq listed asked award requester).symm, approved, ?_, rfl⟩
      rw [requests]
      exact (mem_modifyFirst_iff spent.payments found).mpr (.inr rfl)
    · exact ⟨recipient, (mem_modifyFirst_iff spent.keys named).mpr (.inl ⟨member, same⟩), rfl,
        .inl rfl⟩

/-! ## Runs -/

theorem steps_spent (sound : Sound state) (spent : Spent state.recipients state.requests)
    (ran : steps.foldlM (Step.apply percentOf) state = .ok next) :
    Spent next.recipients next.requests := by
  refine (foldlM_invariant (fun _ reached =>
    Sound reached ∧ Spent reached.recipients reached.requests) ?_ ⟨sound, spent⟩ ran).2
  rintro step rest state next ⟨sound, spent⟩ applied
  exact ⟨(Step.apply_sound applied).sound sound, (Step.awardStep sound applied).spent sound spent⟩

theorem run_spent (ran : run percentOf genesis steps = .ok state) :
    Spent state.recipients state.requests := by
  obtain ⟨start, inited, ran⟩ := run_ok_iff.mp ran
  obtain ⟨sound, _, holds⟩ := GenesisState.init_books inited
  obtain ⟨recipients, requests⟩ := holds (.awarded [] []) ⟨rfl, rfl⟩
  refine steps_spent sound ?_ ran
  rw [recipients, requests]
  exact ⟨List.nodup_nil, List.nodup_nil, List.forall_mem_nil _, List.forall_mem_nil _,
    List.forall_mem_nil _⟩

theorem run_within (covers : ∀ step ∈ steps, step.coversDirect = true)
    (ran : run percentOf genesis steps = .ok state) : Within state.recipients := by
  obtain ⟨start, inited, ran⟩ := run_ok_iff.mp ran
  obtain ⟨sound, _, holds⟩ := GenesisState.init_books inited
  obtain ⟨recipients, _⟩ := holds (.awarded [] []) ⟨rfl, rfl⟩
  have begun : Within start.recipients := by
    rw [recipients]
    exact List.forall_mem_nil _
  refine (foldlM_along (fun reached => Sound reached ∧ Within reached.recipients) ?_
    (Along.of_forall (fun step member _ => covers step member) start) ⟨sound, begun⟩ ran).2
  rintro step state next covers ⟨sound, within⟩ applied
  exact ⟨(Step.apply_sound applied).sound sound, (Step.awardStep sound applied).within covers within⟩

/-- A paid request stays as it is. -/
theorem steps_paid (sound : Sound state) (spent : Spent state.recipients state.requests)
    {request : WithdrawalRequest} (member : request ∈ state.requests) (paid : request.status = .paid)
    (ran : steps.foldlM (Step.apply percentOf) state = .ok next) : request ∈ next.requests := by
  refine (foldlM_invariant (fun _ reached => Sound reached ∧
    Spent reached.recipients reached.requests ∧ request ∈ reached.requests) ?_
    ⟨sound, spent, member⟩ ran).2.2
  rintro step rest state next ⟨sound, spent, member⟩ applied
  have stepped := Step.awardStep sound applied
  refine ⟨(Step.apply_sound applied).sound sound, stepped.spent sound spent, ?_⟩
  obtain ⟨after, listed, same, same_status | moves⟩ := stepped.later spent.payments request member
  · rw [same_status] at same
    have equal : after = request := same
    exact equal ▸ listed
  · exact absurd paid (RequestStatus.moves_unpaid moves)

/-- The expenses of a recipient are the paid requests for its own subaward, within what it
    gets. Each step moves a request on by at most one stage and changes the expenses of a
    recipient only by paying such a request. A paid request is not paid again. -/
theorem run_awards (percentOf : Int → Int → Int) (genesis : GenesisState) (steps later : List Step)
    (step : Step) (state next final : State)
    (covers : ∀ step ∈ steps, step.coversDirect = true)
    (ran : run percentOf genesis steps = .ok state)
    (stepped : step.apply percentOf state = .ok next)
    (continued : later.foldlM (Step.apply percentOf) next = .ok final) :
    (∀ recipient ∈ state.recipients,
      recipient.totalExpenses.amount =
        total (WithdrawalRequest.paidFrom recipient.key) state.requests ∧
      recipient.totalExpenses.amount ≤ recipient.totalAmount.amount) ∧
    (∀ request ∈ state.requests, ∃ after ∈ next.requests, request.Later after) ∧
    (∀ recipient ∈ state.recipients, ∃ after ∈ next.recipients,
      recipient.Pays state next after) ∧
    ∀ request ∈ next.requests, request.status = .paid → ∀ op : RequestAction,
      (op.awardNumber, op.paymentNumber) = request.key →
      ∀ reached, payAwardWithdrawalRequest final op ≠ .ok reached := by
  have sound := run_sound ran
  have spent := run_spent ran
  have within := run_within covers ran
  have change := Step.awardStep sound stepped
  refine ⟨fun recipient member => ⟨spent.expenses recipient member, within recipient member⟩,
    change.later spent.payments, change.pays spent, ?_⟩
  intro request member paid op key reached paidAgain
  have soundNext := (Step.apply_sound stepped).sound sound
  have spentNext := change.spent sound spent
  have kept := steps_paid soundNext spentNext member paid continued
  have spentFinal := steps_spent soundNext spentNext continued
  simp only [payAwardWithdrawalRequest, bind_ok_iff, require_ok_iff] at paidAgain
  obtain ⟨⟨other, recipient⟩, got, _, approved, _⟩ := paidAgain
  obtain ⟨found, _⟩ := requestToUpdate_found got
  rw [key, find?_of_nodup spentFinal.payments kept, Option.some.injEq] at found
  dsimp only at found approved
  rw [← found, paid] at approved
  cases approved

/-- A payment that leaves the other recipients alone. -/
theorem run_awards_sample : ∃ state next,
    run Sample.percentOf Sample.genesis
      (Sample.block 1 (Sample.award ++ Sample.payment.take 2)).steps = .ok state ∧
    (Step.operation (.payAwardWithdrawalRequest ⟨"payment", "award", none, "alice"⟩)).apply
      Sample.percentOf state = .ok next ∧
    ∀ recipient ∈ state.recipients, ∃ after ∈ next.recipients,
      recipient.Pays state next after := by
  obtain ⟨next, ran⟩ := exists_ok (do
    let state ← run Sample.percentOf Sample.genesis
      (Sample.block 1 (Sample.award ++ Sample.payment.take 2)).steps
    (Step.operation (.payAwardWithdrawalRequest ⟨"payment", "award", none, "alice"⟩)).apply
      Sample.percentOf state) (by decide +kernel)
  obtain ⟨state, ran, stepped⟩ := bind_ok_iff.mp ran
  refine ⟨state, next, ran, stepped, ?_⟩
  exact (run_awards _ _ _ [] _ _ _ _ (by decide +kernel) ran stepped rfl).2.2.1

/-- A subaward of the main awardee that is passed on beyond its amount. -/
def Sample.overdrawn : CreateAwardOperation where
  awardNumber := "award"
  fundingOpportunityNumber := "grant"
  award := ⟨100, usdSymbol⟩
  awardee := "alice"
  researchExternalId := "lens"
  universityExternalId := "bob"
  universityOverhead := ⟨0, 2⟩
  subawardees := [⟨"first", ⟨10, usdSymbol⟩, "bob", "alice", "lens"⟩,
    ⟨"second", ⟨20, usdSymbol⟩, "carol", "bob", "lens"⟩]
  creator := "alice"

/-- A recipient who has spent nothing has spent more than it gets. -/
theorem run_awards_fails : ∃ state,
    run Sample.percentOf Sample.genesis
      (Sample.block 1 (Sample.award.take 3 ++ [.createAward Sample.overdrawn])).steps = .ok state ∧
    ∃ recipient ∈ state.recipients,
      recipient.totalAmount.amount < recipient.totalExpenses.amount := by
  obtain ⟨state, ran, exceeds⟩ := exists_ok_of_any
    (run Sample.percentOf Sample.genesis
      (Sample.block 1 (Sample.award.take 3 ++ [.createAward Sample.overdrawn])).steps)
    (fun state => state.recipients.any fun recipient =>
      recipient.totalAmount.amount < recipient.totalExpenses.amount) (by decide +kernel)
  obtain ⟨recipient, member, below⟩ := List.any_eq_true.mp exceeds
  exact ⟨state, ran, recipient, member, of_decide_eq_true below⟩

end DeipChain.Ledger
