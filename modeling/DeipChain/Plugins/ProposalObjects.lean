import DeipChain.Plugins.ProposalHistory
import DeipChain.Proposals.Chains

/-!
# The objects of proposals without approvals

As long as no approval is given, the sets that the handler of updates goes through are empty and
the objects agree with the proposals. Here is what each handler does to objects that do: it returns
and keeps them so. With an approval added, the handler of updates comes to a point from which its
behaviour is not defined.
-/
namespace DeipChain.ProposalHistory

open Proposals Result Table

variable {Payload Rest : Type}

/-! ## What the objects say of the proposals -/

/-- An object agrees with its proposal. -/
structure Mirrored (proposal : Proposal Payload) (state : ProposalState Payload) : Prop where
  active : state.activeApprovals = proposal.availableActiveApprovals
  owner : state.ownerApprovals = proposal.availableOwnerApprovals
  approvals : ∀ account, (state.approvals account).isSome = true ↔
    account ∈ proposal.availableActiveApprovals ∪ proposal.availableOwnerApprovals
  required : state.requiredApprovals =
    proposal.requiredActiveApprovals ∪ proposal.requiredOwnerApprovals

/-- The proposals that there are have objects that agree with them, and those that were removed have
the status of their removal. -/
structure Node.Mirrors (node : Node Payload Rest) : Prop where
  mirrored : ∀ proposal ∈ node.database.store.proposals,
    ∃ state, findState proposal.externalId node.history = some state ∧ Mirrored proposal state
  settled : ∀ entry ∈ node.removed,
    ∃ state, findState entry.1 node.history = some state ∧ state.status = entry.2.status

/-- The object has no approvals. -/
structure ProposalState.Blank (state : ProposalState Payload) : Prop where
  approvals : ∀ account, state.approvals account = none
  active : state.activeApprovals = ∅
  owner : state.ownerApprovals = ∅
  keys : state.keyApprovals = ∅

/-- The proposals without approvals and their objects. -/
structure Tracks (proposals : List (Proposal Payload)) (history : History Payload)
    (removed : List (String × Removal)) : Prop where
  unapproved : ∀ proposal ∈ proposals,
    proposal.availableActiveApprovals = ∅ ∧ proposal.availableOwnerApprovals = ∅
  states : (history.map ProposalState.externalId).Nodup
  blank : ∀ state ∈ history, state.Blank
  mirrored : ∀ proposal ∈ proposals, ∃ state ∈ history, state.externalId = proposal.externalId ∧
    state.requiredApprovals = proposal.requiredActiveApprovals ∪ proposal.requiredOwnerApprovals
  apart : ∀ entry ∈ removed, ∀ proposal ∈ proposals, proposal.externalId ≠ entry.1
  settled : ∀ entry ∈ removed,
    ∃ state ∈ history, state.externalId = entry.1 ∧ state.status = entry.2.status
  named : ∀ state ∈ history, state.externalId ∈ proposals.map Proposal.externalId ∨
    state.externalId ∈ removed.map Prod.fst

section Tracks

variable {proposals : List (Proposal Payload)} {history : History Payload}
  {removed : List (String × Removal)} {proposal : Proposal Payload} {state : ProposalState Payload}
  {externalId : String}

theorem findState_member (states : (history.map ProposalState.externalId).Nodup) (member : state ∈ history) :
    findState state.externalId history = some state :=
  find?_of_nodup states member

theorem member_of_find (found : findState externalId history = some state) :
    state ∈ history ∧ state.externalId = externalId :=
  ⟨List.mem_of_find?_eq_some found, by simpa using List.find?_some found⟩

/-- The objects of the proposals and of the removed ones. -/
theorem Tracks.mirrors {node : Node Payload Rest}
    (tracks : Tracks node.database.store.proposals node.history node.removed) : node.Mirrors where
  mirrored proposal member := by
    obtain ⟨state, there, named, required⟩ := tracks.mirrored proposal member
    have none := tracks.unapproved proposal member
    have blank := tracks.blank state there
    refine ⟨state, named ▸ findState_member tracks.states there, ?_⟩
    exact
      { active := blank.active.trans none.1.symm
        owner := blank.owner.trans none.2.symm
        approvals := fun account => by simp [blank.approvals, none.1, none.2]
        required := required }
  settled entry member := by
    obtain ⟨state, there, named, status⟩ := tracks.settled entry member
    exact ⟨state, named ▸ findState_member tracks.states there, status⟩

/-- A change of an object keeps what proposals and removals need of it. -/
theorem Tracks.modifyState (tracks : Tracks proposals history removed)
    (found : findState externalId history = some state) {changed : ProposalState Payload}
    (same : changed.externalId = externalId)
    (required : changed.requiredApprovals = state.requiredApprovals) (blank : changed.Blank)
    (free : changed.status = state.status ∨ externalId ∉ removed.map Prod.fst) :
    Tracks proposals (modifyState externalId changed history) removed := by
  obtain ⟨there, named⟩ := member_of_find found
  have column : (ProposalHistory.modifyState externalId changed history).map ProposalState.externalId =
      history.map ProposalState.externalId := map_modifyFirst_found found (same.trans named.symm)
  have mem (other : ProposalState Payload) :
      other ∈ ProposalHistory.modifyState externalId changed history ↔
        other ∈ history ∧ other.externalId ≠ externalId ∨ other = changed :=
    mem_modifyFirst_iff tracks.states found
  have kept : changed ∈ ProposalHistory.modifyState externalId changed history := (mem changed).mpr (.inr rfl)
  have only (other : ProposalState Payload) (member : other ∈ history)
      (equal : other.externalId = externalId) : other = state :=
    List.inj_on_of_nodup_map tracks.states member there (equal.trans named.symm)
  refine ⟨tracks.unapproved, column ▸ tracks.states, ?_, ?_, tracks.apart, ?_, ?_⟩
  · intro other member
    rcases (mem other).mp member with ⟨old, _⟩ | rfl
    · exact tracks.blank other old
    · exact blank
  · intro proposal member
    obtain ⟨own, listed, equal, needs⟩ := tracks.mirrored proposal member
    by_cases hit : own.externalId = externalId
    · obtain rfl := only own listed hit
      exact ⟨changed, kept, same.trans (named.symm.trans equal), required.trans needs⟩
    · exact ⟨own, (mem own).mpr (.inl ⟨listed, hit⟩), equal, needs⟩
  · intro entry member
    obtain ⟨own, listed, equal, status⟩ := tracks.settled entry member
    by_cases hit : own.externalId = externalId
    · obtain rfl := only own listed hit
      rcases free with still | never
      · exact ⟨changed, kept, same.trans (named.symm.trans equal), still.trans status⟩
      · refine absurd (List.mem_map.mpr ⟨entry, member, ?_⟩) never
        exact equal.symm.trans named
    · exact ⟨own, (mem own).mpr (.inl ⟨listed, hit⟩), equal, status⟩
  · intro other member
    rcases (mem other).mp member with ⟨old, _⟩ | rfl
    · exact tracks.named other old
    · rw [same, ← named]
      exact tracks.named state there

/-- A change of a proposal that leaves it without approvals. -/
theorem Tracks.modifyProposal {store : Store Payload Rest} (tracks : Tracks store.proposals history removed)
    (id : Nat) (change : Proposal Payload → Proposal Payload)
    (named : ∀ proposal, (change proposal).externalId = proposal.externalId)
    (active : ∀ proposal, (change proposal).requiredActiveApprovals = proposal.requiredActiveApprovals)
    (owner : ∀ proposal, (change proposal).requiredOwnerApprovals = proposal.requiredOwnerApprovals)
    (still : ∀ proposal, proposal.availableActiveApprovals = ∅ ∧ proposal.availableOwnerApprovals = ∅ →
      (change proposal).availableActiveApprovals = ∅ ∧ (change proposal).availableOwnerApprovals = ∅) :
    Tracks (store.modifyProposal id change).proposals history removed := by
  have column : (store.modifyProposal id change).proposals.map Proposal.externalId =
      store.proposals.map Proposal.externalId := map_modifyFirst named
  refine ⟨?_, tracks.states, tracks.blank, ?_, ?_, tracks.settled, ?_⟩
  · exact forall_modifyFirst tracks.unapproved fun row _ => still row
  · refine forall_modifyFirst tracks.mirrored ?_
    rintro row _ ⟨state, there, same, required⟩
    exact ⟨state, there, same.trans (named row).symm, by rw [required, active, owner]⟩
  · intro entry member
    refine forall_modifyFirst (tracks.apart entry member) ?_
    exact fun row _ differs => by rw [named]; exact differs
  · rw [column]
    exact tracks.named

/-- A proposal is removed with the status of its removal. -/
theorem Tracks.removeProposal {store : Store Payload Rest} (tracks : Tracks store.proposals history removed)
    (ids : (store.proposals.map Proposal.id).Nodup)
    (names : (store.proposals.map Proposal.externalId).Nodup) (listed : store.Lists proposal)
    (how : Removal) (status : ∃ state ∈ history, state.externalId = proposal.externalId ∧
      state.status = how.status) :
    Tracks (store.removeProposal proposal.id).proposals history ((proposal.externalId, how) :: removed) := by
  obtain ⟨row, member, sameId, sameName⟩ := listed
  have mem (other : Proposal Payload) : other ∈ (store.removeProposal proposal.id).proposals ↔
      other ∈ store.proposals ∧ other.id ≠ proposal.id := mem_eraseP_iff ids
  refine ⟨?_, tracks.states, tracks.blank, ?_, ?_, ?_, ?_⟩
  · exact fun other left => tracks.unapproved other ((mem other).mp left).1
  · exact fun other left => tracks.mirrored other ((mem other).mp left).1
  · intro entry listed other left
    obtain ⟨there, apart⟩ := (mem other).mp left
    rcases List.mem_cons.mp listed with rfl | old
    · intro same
      have equal := List.inj_on_of_nodup_map names there member (same.trans sameName.symm)
      exact apart (equal ▸ sameId)
    · exact tracks.apart entry old other there
  · intro entry listed
    rcases List.mem_cons.mp listed with rfl | old
    · exact status
    · exact tracks.settled entry old
  · intro state there
    rcases tracks.named state there with among | gone
    · obtain ⟨other, listed, same⟩ := List.mem_map.mp among
      by_cases own : other.id = proposal.id
      · have equal := List.inj_on_of_nodup_map ids listed member (own.trans sameId.symm)
        refine .inr (List.mem_map.mpr ⟨_, List.mem_cons_self, ?_⟩)
        exact sameName.symm.trans (equal ▸ same)
      · exact .inl (List.mem_map.mpr ⟨other, (mem other).mpr ⟨listed, own⟩, same⟩)
    · exact .inr (List.mem_cons_of_mem _ gone)

/-- A new proposal gets its object. -/
theorem Tracks.create (tracks : Tracks proposals history removed)
    (none : proposal.availableActiveApprovals = ∅ ∧ proposal.availableOwnerApprovals = ∅)
    (unnamed : ∀ other ∈ proposals, other.externalId ≠ proposal.externalId)
    (fresh : proposal.externalId ∉ removed.map Prod.fst) {state : ProposalState Payload}
    (named : state.externalId = proposal.externalId) (blank : state.Blank)
    (required : state.requiredApprovals =
      proposal.requiredActiveApprovals ∪ proposal.requiredOwnerApprovals) :
    createState state history = .returned (history ++ [state]) ∧
      Tracks (proposals ++ [proposal]) (history ++ [state]) removed := by
  have unknown : ∀ other ∈ history, other.externalId ≠ state.externalId := by
    intro other member same
    rw [named] at same
    rcases tracks.named other member with among | gone
    · obtain ⟨row, listed, equal⟩ := List.mem_map.mp among
      exact unnamed row listed (equal.trans same)
    · exact fresh (same ▸ gone)
  have missing : findState state.externalId history = Option.none := by
    rw [findState, List.find?_eq_none]
    exact fun other member same => unknown other member (by simpa using same)
  refine ⟨by rw [createState, missing]; rfl, ?_⟩
  refine ⟨forall_append_singleton tracks.unapproved none, nodup_append_fresh tracks.states unknown,
    forall_append_singleton tracks.blank blank, ?_, ?_, ?_, ?_⟩
  · refine forall_append_singleton ?_ ⟨state, List.mem_append_right _ (List.mem_singleton_self _),
      named, required⟩
    intro other member
    obtain ⟨own, there, rest⟩ := tracks.mirrored other member
    exact ⟨own, List.mem_append_left _ there, rest⟩
  · intro entry listed
    refine forall_append_singleton (tracks.apart entry listed) ?_
    rintro same
    exact fresh (List.mem_map.mpr ⟨entry, listed, same.symm⟩)
  · intro entry listed
    obtain ⟨own, there, rest⟩ := tracks.settled entry listed
    exact ⟨own, List.mem_append_left _ there, rest⟩
  · rw [List.map_append]
    refine forall_append_singleton ?_ (.inl (List.mem_append_right _ (by simp [named])))
    intro other member
    exact (tracks.named other member).imp_left (List.mem_append_left _)

end Tracks

/-! ## The handlers -/

/-- The update adds no approval. -/
structure AddsNothing (update : ProposalUpdate) : Prop where
  active : update.activeApprovalsToAdd = ∅
  owner : update.ownerApprovalsToAdd = ∅
  keys : update.keyApprovalsToAdd = ∅

theorem walk_empty {get : ProposalState Payload → Finset String}
    {set : Finset String → ProposalState Payload → ProposalState Payload} {state : ProposalState Payload}
    (empty : get state = ∅) : state.walk get set = .returned (set ∅ state) := by
  rw [ProposalState.walk, empty]
  rfl

/-- With nothing added, the loops find the sets of a blank object empty. -/
theorem ProposalState.Blank.update {state : ProposalState Payload} (blank : state.Blank)
    {update : ProposalUpdate} (nothing : AddsNothing update) (info : TxInfo) :
    ∃ changed, state.update update info = .returned changed ∧ changed.Blank ∧
      changed.externalId = state.externalId ∧ changed.status = state.status ∧
      changed.requiredApprovals = state.requiredApprovals := by
  have active : (state.approve update info).activeApprovals = ∅ := by
    simp [ProposalState.approve, blank.active, nothing.active]
  have owner : (state.approve update info).ownerApprovals = ∅ := by
    simp [ProposalState.approve, blank.owner, nothing.owner]
  have keys : (state.approve update info).keyApprovals = ∅ := by
    simp [ProposalState.approve, blank.keys, nothing.keys]
  have approvals (account : String) : (state.approve update info).approvals account = none := by
    simp [ProposalState.approve, eraseAll, insertAll, blank.approvals, nothing.active, nothing.owner]
  have walked : state.update update info = .returned { state.approve update info with
      activeApprovals := ∅, ownerApprovals := ∅, keyApprovals := ∅ } := by
    rw [ProposalState.update, walk_empty active, Outcome.andThen_returned]
    rw [walk_empty (by exact owner), Outcome.andThen_returned]
    exact walk_empty keys
  exact ⟨_, walked, ⟨approvals, rfl, rfl, rfl⟩, rfl, rfl, rfl⟩

theorem walk_nonempty {get : ProposalState Payload → Finset String}
    {set : Finset String → ProposalState Payload → ProposalState Payload} {state : ProposalState Payload}
    (some : (get state).Nonempty) : ∃ changed, state.walk get set = .undefined changed := by
  refine ⟨set ((get state).erase ((get state).min' some)) state, ?_⟩
  rw [ProposalState.walk, eraseWalking, dif_pos some]

theorem walk_andThen_undefined {get : ProposalState Payload → Finset String}
    {set : Finset String → ProposalState Payload → ProposalState Payload} {state : ProposalState Payload}
    (some : (get state).Nonempty)
    (next : ProposalState Payload → Outcome HandlerError (ProposalState Payload)) :
    ∃ changed, (state.walk get set).andThen next = .undefined changed := by
  obtain ⟨changed, lost⟩ : ∃ changed, state.walk get set = .undefined changed := walk_nonempty some
  exact ⟨changed, by rw [lost]; rfl⟩

/-- With an approval added, one of the loops goes over a set that is not empty. -/
theorem ProposalState.update_undefined {update : ProposalUpdate} (adds : ¬AddsNothing update)
    (info : TxInfo) (state : ProposalState Payload) :
    ∃ changed, state.update update info = .undefined changed := by
  rw [ProposalState.update]
  by_cases active : (state.approve update info).activeApprovals = ∅
  · rw [walk_empty active, Outcome.andThen_returned]
    by_cases owner : (state.approve update info).ownerApprovals = ∅
    · rw [walk_empty (by exact owner), Outcome.andThen_returned]
      refine walk_nonempty (Finset.nonempty_iff_ne_empty.mpr ?_)
      intro keys
      exact adds ⟨(Finset.union_eq_empty.mp active).2, (Finset.union_eq_empty.mp owner).2,
        (Finset.union_eq_empty.mp keys).2⟩
    · exact walk_andThen_undefined (by exact Finset.nonempty_iff_ne_empty.mpr owner) _
  · obtain ⟨changed, lost⟩ := walk_andThen_undefined
      (by exact Finset.nonempty_iff_ne_empty.mpr active) _
    exact ⟨changed, by rw [lost]; rfl⟩

section Handlers

variable {proposals : List (Proposal Payload)} {history : History Payload}
  {removed : List (String × Removal)} {externalId : String}

theorem Tracks.known (tracks : Tracks proposals history removed)
    (listed : externalId ∈ proposals.map Proposal.externalId) :
    ∃ state ∈ history, state.externalId = externalId := by
  obtain ⟨proposal, member, rfl⟩ := List.mem_map.mp listed
  obtain ⟨state, there, same, -⟩ := tracks.mirrored proposal member
  exact ⟨state, there, same⟩

theorem Tracks.gone (tracks : Tracks proposals history removed)
    (listed : externalId ∈ removed.map Prod.fst) : ∃ state ∈ history, state.externalId = externalId := by
  obtain ⟨entry, member, rfl⟩ := List.mem_map.mp listed
  obtain ⟨state, there, same, -⟩ := tracks.settled entry member
  exact ⟨state, there, same⟩

/-- The object of a proposal that is still there gets a status. -/
theorem Tracks.mark (tracks : Tracks proposals history removed)
    (listed : externalId ∈ proposals.map Proposal.externalId)
    (change : ProposalState Payload → ProposalState Payload) (status : ProposalStatus)
    (same : ∀ state, (change state).externalId = state.externalId ∧
      (change state).requiredApprovals = state.requiredApprovals ∧ (change state).status = status)
    (blank : ∀ state, state.Blank → (change state).Blank) :
    ∃ state, findState externalId history = some state ∧
      Tracks proposals (ProposalHistory.modifyState externalId (change state) history) removed ∧
      ∃ marked ∈ ProposalHistory.modifyState externalId (change state) history,
        marked.externalId = externalId ∧ marked.status = status := by
  obtain ⟨state, there, rfl⟩ := tracks.known listed
  have found := findState_member tracks.states there
  have free : state.externalId ∉ removed.map Prod.fst := by
    intro member
    obtain ⟨entry, old, named⟩ := List.mem_map.mp member
    obtain ⟨proposal, row, own⟩ := List.mem_map.mp listed
    exact tracks.apart entry old proposal row (own.trans named.symm)
  obtain ⟨named, required, set⟩ := same state
  refine ⟨state, found, tracks.modifyState found named required (blank state (tracks.blank state there))
    (.inr free), change state, ?_, named, set⟩
  exact (mem_modifyFirst_iff tracks.states found).mpr (.inr rfl)

theorem Tracks.statusChanged (tracks : Tracks proposals history removed)
    (listed : externalId ∈ proposals.map Proposal.externalId) (status : ProposalStatus)
    (reason : Option ProposalError) :
    ∃ changed, ProposalHistory.statusChanged externalId status reason history = .returned changed ∧
      Tracks proposals changed removed ∧
      ∃ marked ∈ changed, marked.externalId = externalId ∧ marked.status = status := by
  obtain ⟨state, found, still, marked⟩ := tracks.mark listed
    (fun state => { state with status, failReason := reason }) status (fun _ => ⟨rfl, rfl, rfl⟩)
    (fun _ blank => ⟨blank.approvals, blank.active, blank.owner, blank.keys⟩)
  exact ⟨_, by rw [ProposalHistory.statusChanged, found], still, marked⟩

theorem Tracks.deleteProposal (tracks : Tracks proposals history removed)
    (listed : externalId ∈ proposals.map Proposal.externalId) (account : String) (info : TxInfo) :
    ∃ changed, ProposalHistory.deleteProposal externalId account info history = .returned changed ∧
      Tracks proposals changed removed ∧
      ∃ marked ∈ changed, marked.externalId = externalId ∧ marked.status = .rejected := by
  obtain ⟨state, found, still, marked⟩ := tracks.mark listed
    (fun state => { state with
      rejectors := insertAll {account} info state.rejectors
      status := .rejected }) .rejected (fun _ => ⟨rfl, rfl, rfl⟩)
    (fun _ blank => ⟨blank.approvals, blank.active, blank.owner, blank.keys⟩)
  exact ⟨_, by rw [ProposalHistory.deleteProposal, found], still, marked⟩

theorem Tracks.updateProposal (tracks : Tracks proposals history removed) {update : ProposalUpdate}
    (nothing : AddsNothing update) (info : TxInfo)
    (known : ∃ state ∈ history, state.externalId = update.externalId) :
    ∃ changed, ProposalHistory.updateProposal update info history = .returned changed ∧
      Tracks proposals changed removed := by
  obtain ⟨state, there, named⟩ := known
  have found : findState update.externalId history = some state :=
    named ▸ findState_member tracks.states there
  obtain ⟨changed, ran, blank, same, status, required⟩ :=
    (tracks.blank state there).update nothing info
  refine ⟨ProposalHistory.modifyState update.externalId changed history, ?_, ?_⟩
  · simp only [ProposalHistory.updateProposal, found, ran]
  · exact tracks.modifyState found (same.trans named) required blank (.inl status)

end Handlers

end DeipChain.ProposalHistory
