import DeipChain.Research.Membership

/-!
# The members of a research are members of its group

The evaluators read forwards: what becomes of the groups and of the researches. A member who
joins comes into the researches and into the group, and one who leaves goes out of both, so that nobody takes
part in a research without a token of its group.
-/
namespace DeipChain.Groups

open Result Table Protocol Research

variable {Key : Type}

/-! ## The tokens of a group -/

theorem shareOut_owners {tokens after : List GroupToken} {account inviter : Name} {share : Int}
    (shared : shareOut tokens account share inviter = .ok after) :
    after.map GroupToken.owner = tokens.map GroupToken.owner ++ [account] := by
  rw [shareOut] at shared
  split at shared
  · simp only [createToken, bind_ok_iff, require_ok_iff, pure_ok_iff] at shared
    obtain ⟨token, -, _, -, _, -, rfl⟩ := shared
    rw [List.map_append, map_modifyFirst]
    · rfl
    · exact fun _ => rfl
  · simp only [createToken, bind_ok_iff, require_ok_iff, pure_ok_iff] at shared
    obtain ⟨_, -, rfl⟩ := shared
    rw [List.map_append, List.map_map]
    rfl

theorem addMember_owners {tokens after : List GroupToken} {account inviter : Name} {share : Int}
    (added : addMember tokens account share inviter = .ok after) :
    after.map GroupToken.owner = tokens.map GroupToken.owner ++ [account] := by
  simp only [addMember, bind_ok_iff, require_ok_iff, pure_ok_iff] at added
  obtain ⟨created, shared, _, -, rfl⟩ := added
  exact shareOut_owners shared

theorem giveRemainder_owners {tokens after : List GroupToken}
    (given : giveRemainder tokens = .ok after) :
    after.map GroupToken.owner = tokens.map GroupToken.owner := by
  rw [giveRemainder] at given
  split at given
  · simp only [bind_ok_iff, pure_ok_iff] at given
    obtain ⟨token, -, rfl⟩ := given
    rw [map_modifyFirst]
    exact fun _ => rfl
  · rw [pure_ok_iff] at given
    rw [given]

theorem removeMember_owners {tokens after : List GroupToken} {account : Name}
    (removed : removeMember tokens account = .ok after) :
    after.map GroupToken.owner =
      (tokens.eraseP fun token => token.owner == account).map GroupToken.owner := by
  simp only [removeMember, bind_ok_iff, require_ok_iff, pure_ok_iff] at removed
  obtain ⟨token, -, _, -, remaining, given, _, -, rfl⟩ := removed
  rw [giveRemainder_owners given, List.map_map]
  rfl

theorem isMember_iff {tokens : List GroupToken} {member : Name} :
    isMember tokens member = true ↔ member ∈ tokens.map GroupToken.owner := by
  rw [isMember, List.any_eq_true, List.mem_map]
  constructor
  · rintro ⟨token, listed, same⟩
    exact ⟨token, listed, eq_of_beq same⟩
  · rintro ⟨token, listed, same⟩
    exact ⟨token, listed, beq_iff_eq.mpr same⟩

theorem isMember_eraseP {tokens : List GroupToken} {account member : Name}
    (inside : isMember tokens member = true) (other : member ≠ account) :
    member ∈ (tokens.eraseP fun token => token.owner == account).map GroupToken.owner := by
  obtain ⟨token, listed, rfl⟩ := List.mem_map.mp (isMember_iff.mp inside)
  refine List.mem_map.mpr ⟨token, ?_, rfl⟩
  rw [List.mem_eraseP_of_neg]
  · exact listed
  · simpa using other

/-! ## Researches and their groups -/

/-- Nobody takes part in a research without a token of its group. -/
def Inside (groups : List Group) (research : ResearchObject) : Prop :=
  ∃ group ∈ groups, group.id = research.researchGroupId ∧
    ∀ member ∈ research.members, isMember group.tokens member = true

/-- The groups are numbered in the order of their creation, no two researches have one external id,
and the members of the researches are members of the groups. -/
structure Consistent (state : State Key) : Prop where
  numbered : state.groups.map Group.id = List.range state.groups.length
  named : (state.researches.map ResearchObject.externalId).Nodup
  inside : ∀ research ∈ state.researches, Inside state.groups research

theorem Consistent.distinct {state : State Key} (consistent : Consistent state) :
    (state.groups.map Group.id).Nodup := by
  rw [consistent.numbered]
  exact List.nodup_range

/-- A group with its id is the one. -/
theorem Consistent.unique {state : State Key} (consistent : Consistent state) {group other : Group}
    (listed : group ∈ state.groups) (present : other ∈ state.groups) (same : group.id = other.id) :
    group = other :=
  List.inj_on_of_nodup_map consistent.distinct listed present same

/-- A change of accounts only. -/
theorem Consistent.modifyAuthority {state : State Key} (consistent : Consistent state) (name : Name)
    (change : AuthorityPack Name Key → AuthorityPack Name Key) :
    Consistent (state.modifyAuthority name change) :=
  ⟨consistent.numbered, consistent.named, consistent.inside⟩

theorem getResearchGroupByAccount_ok {state : State Key} {account : Name} {group : Group}
    (found : state.getResearchGroupByAccount account = .ok group) : group ∈ state.groups := by
  rw [State.getResearchGroupByAccount, expect_ok_iff] at found
  exact List.mem_of_find?_eq_some found

theorem sharedGroup_ok {state : State Key} {member researchGroup : Name} {personal : String}
    {group : Group} (found : state.sharedGroup member researchGroup personal = .ok group) :
    group ∈ state.groups := by
  simp only [State.sharedGroup, bind_ok_iff, pure_ok_iff] at found
  obtain ⟨_, -, _, -, here, got, _, -, rfl⟩ := found
  exact getResearchGroupByAccount_ok got

theorem createGroup_consistent {state next : State Key} {account member : Name} {isPersonal : Bool}
    (consistent : Consistent state)
    (created : state.createGroup account member isPersonal = .ok next) : Consistent next := by
  simp only [State.createGroup, bind_ok_iff, pure_ok_iff] at created
  obtain ⟨_, -, tokens, -, rfl⟩ := created
  refine ⟨?_, consistent.named, ?_⟩
  · simp only [List.map_append, List.map_singleton, List.length_append, List.length_singleton,
      List.range_succ, consistent.numbered]
  · intro research listed
    obtain ⟨group, present, same, members⟩ := consistent.inside research listed
    exact ⟨group, List.mem_append_left _ present, same, members⟩

theorem createAccountByFaucets_consistent {state next : State Key} {name creator : Name}
    {authority : AuthorityPack Name Key} {isUserAccount : Bool} (consistent : Consistent state)
    (created : state.createAccountByFaucets name creator authority isUserAccount = .ok next) :
    Consistent next := by
  simp only [State.createAccountByFaucets, bind_ok_iff] at created
  obtain ⟨_, -, made⟩ := created
  have added : Consistent { state with accounts := state.accounts ++ [⟨name, authority⟩] } :=
    ⟨consistent.numbered, consistent.named, consistent.inside⟩
  exact createGroup_consistent added made

/-- The groups after the tokens of one of them have changed. -/
theorem setTokens_groups {state : State Key} (consistent : Consistent state) {group : Group}
    (listed : group ∈ state.groups) (tokens : List GroupToken) :
    (state.setTokens group.id tokens).groups.map Group.id = List.range state.groups.length ∧
      { group with tokens := tokens } ∈ (state.setTokens group.id tokens).groups ∧
      ∀ other ∈ state.groups, other.id ≠ group.id →
        other ∈ (state.setTokens group.id tokens).groups := by
  have found : state.groups.find? (fun other => other.id == group.id) = some group :=
    find?_of_nodup consistent.distinct listed
  refine ⟨?_, ?_, ?_⟩
  · rw [State.setTokens, map_modifyFirst]
    · exact consistent.numbered
    · exact fun _ => rfl
  · exact (mem_modifyFirst_iff consistent.distinct found).mpr (Or.inr rfl)
  · intro other present apart
    exact (mem_modifyFirst_iff consistent.distinct found).mpr (Or.inl ⟨present, apart⟩)

/-- The tokens of a group change, and with them the members of its researches. -/
theorem setTokens_consistent {state : State Key} (consistent : Consistent state) {group : Group}
    (listed : group ∈ state.groups) {tokens : List GroupToken} {chosen : ResearchObject → Bool}
    {change : Finset Name → Finset Name}
    (others : ∀ research ∈ state.researches, research.researchGroupId ≠ group.id →
      chosen research = false)
    (changed : ∀ research ∈ state.researches, chosen research = true →
      (∀ member ∈ research.members, isMember group.tokens member = true) →
        ∀ member ∈ change research.members, isMember tokens member = true)
    (unchanged : ∀ research ∈ state.researches, research.researchGroupId = group.id →
      chosen research = false →
      (∀ member ∈ research.members, isMember group.tokens member = true) →
        ∀ member ∈ research.members, isMember tokens member = true) :
    Consistent ((state.updateMembers chosen change).setTokens group.id tokens) := by
  obtain ⟨numbered, present, kept⟩ := setTokens_groups consistent listed tokens
  refine ⟨?_, ?_, ?_⟩
  · rw [show ((state.updateMembers chosen change).setTokens group.id tokens).groups =
      (state.setTokens group.id tokens).groups from rfl, numbered]
    exact congrArg List.range (length_modifyFirst _ _ state.groups).symm
  · have names : ((state.updateMembers chosen change).researches.map ResearchObject.externalId) =
        state.researches.map ResearchObject.externalId := by
      rw [State.updateMembers, List.map_map]
      refine List.map_congr_left ?_
      intro research _
      dsimp only [Function.comp_apply]
      split
      · rfl
      · rfl
    exact names ▸ consistent.named
  · intro research member
    obtain ⟨old, oldListed, rfl⟩ := List.mem_map.mp member
    obtain ⟨own, ownListed, same, inside⟩ := consistent.inside old oldListed
    by_cases here : old.researchGroupId = group.id
    · have one : own = group := consistent.unique ownListed listed (same.trans here)
      subst one
      by_cases hit : chosen old = true
      · rw [if_pos hit]
        exact ⟨{ own with tokens := tokens }, present, same, changed old oldListed hit inside⟩
      · rw [if_neg hit]
        exact ⟨{ own with tokens := tokens }, present, same,
          unchanged old oldListed here (Bool.eq_false_iff.mpr hit) inside⟩
    · rw [others old oldListed here]
      exact ⟨own, kept own ownListed (same ▸ here), same, inside⟩

/-! ## The operations -/

theorem join_consistent {state next : State Key} {member researchGroup : Name}
    {researches : Option (List String)} (consistent : Consistent state)
    (joined : state.join member researchGroup researches = .ok next) : Consistent next := by
  simp only [State.join, bind_ok_iff, require_ok_iff, pure_ok_iff] at joined
  obtain ⟨group, found, _, -, _, checked, tokens, added, rfl⟩ := joined
  have owners := addMember_owners added
  have stays : ∀ name, isMember group.tokens name = true → isMember tokens name = true := by
    intro name taking
    rw [isMember_iff, owners]
    exact List.mem_append_left _ (isMember_iff.mp taking)
  apply Consistent.modifyAuthority
  refine setTokens_consistent consistent (sharedGroup_ok found) ?_ ?_ ?_
  · intro research present apart
    cases researches with
    | none => simpa using apart
    | some list =>
      dsimp only
      rw [List.contains_eq_mem, decide_eq_false_iff_not]
      intro named
      -- A research on the list has been found, and is one of the group.
      rw [forM_ok_iff] at checked
      have check := checked research.externalId (by simpa using named)
      simp only [State.getResearch, bind_ok_iff, expect_ok_iff, require_ok_iff] at check
      obtain ⟨other, got, own⟩ := check
      rw [find?_of_nodup consistent.named present, Option.some.injEq] at got
      exact apart (got ▸ own)
  · intro research _ _ inside name taking
    rcases Finset.mem_insert.mp taking with rfl | before
    · rw [isMember_iff, owners]
      exact List.mem_append_right _ List.mem_cons_self
    · exact stays name (inside name before)
  · exact fun research _ _ _ inside name taking => stays name (inside name taking)

theorem leave_consistent {state next : State Key} {member researchGroup : Name}
    (consistent : Consistent state) (left : state.leave member researchGroup = .ok next) :
    Consistent next := by
  simp only [State.leave, bind_ok_iff, require_ok_iff, pure_ok_iff] at left
  obtain ⟨group, found, _, -, tokens, removed, rfl⟩ := left
  apply Consistent.modifyAuthority
  refine setTokens_consistent consistent (sharedGroup_ok found) ?_ ?_ ?_
  · intro research _ apart
    simpa using apart
  · intro research _ _ inside name taking
    obtain ⟨other, before⟩ := Finset.mem_erase.mp taking
    rw [isMember_iff, removeMember_owners removed]
    exact isMember_eraseP (inside name before) other
  · intro research _ own missed
    exact absurd own (by simpa using missed)

theorem checkMembers_ok {group : Group} {members : Option (Finset Name)} {result : Unit}
    (checked : checkMembers group members = .ok result) {list : Finset Name}
    (given : members = some list) : ∀ member ∈ list, isMember group.tokens member = true := by
  rw [checkMembers, require_ok_iff] at checked
  exact checked list given

theorem createResearch_consistent {state next : State Key} {research : ResearchObject} {group : Group}
    (consistent : Consistent state) (listed : group ∈ state.groups)
    (own : research.researchGroupId = group.id)
    (inside : ∀ member ∈ research.members, isMember group.tokens member = true)
    (created : state.createResearch research = .ok next) : Consistent next := by
  simp only [State.createResearch, bind_ok_iff, require_ok_iff, pure_ok_iff] at created
  obtain ⟨_, fresh, rfl⟩ := created
  exact ⟨consistent.numbered, nodup_append_fresh consistent.named fresh,
    forall_append_singleton consistent.inside ⟨group, listed, own.symm, inside⟩⟩

theorem createResearchFor_consistent {state next : State Key} {externalId : String}
    {researchGroup : Name} {disciplines : List String} {details : Details}
    {members : Option (Finset Name)} (consistent : Consistent state)
    (created : state.createResearchFor externalId researchGroup disciplines details members = .ok next) :
    Consistent next := by
  simp only [State.createResearchFor, bind_ok_iff, require_ok_iff] at created
  obtain ⟨_, -, group, found, _, -, _, -, _, checked, made⟩ := created
  refine createResearch_consistent consistent (getResearchGroupByAccount_ok found) rfl ?_ made
  cases members with
  | some list => exact checkMembers_ok checked rfl
  | none =>
    intro member taking
    exact isMember_iff.mpr (List.mem_toFinset.mp taking)

theorem updateResearch_consistent {state next : State Key} {externalId : String}
    {researchGroup : Name} {description : Option String} {isPrivate : Option Bool}
    {reviewShare compensationShare : Option Nat} {members : Option (Finset Name)}
    (consistent : Consistent state)
    (updated : state.updateResearch externalId researchGroup description isPrivate reviewShare
      compensationShare members = .ok next) : Consistent next := by
  simp only [State.updateResearch, bind_ok_iff, require_ok_iff, pure_ok_iff] at updated
  obtain ⟨_, -, group, found, _, -, research, got, _, own, _, checked, rfl⟩ := updated
  have listed := getResearchGroupByAccount_ok found
  rw [State.getResearch, expect_ok_iff] at got
  refine ⟨consistent.numbered, ?_, forall_modifyFirst consistent.inside ?_⟩
  · rw [map_modifyFirst_found got]
    · exact consistent.named
    · rfl
  · intro _ _ _
    cases members with
    | some list => exact ⟨group, listed, own.symm, checkMembers_ok checked rfl⟩
    | none => exact consistent.inside research (List.mem_of_find?_eq_some got)

theorem apply_consistent {state next : State Key} {operation : Operation Key}
    (consistent : Consistent state) (applied : state.apply operation = .ok next) :
    Consistent next := by
  cases operation with
  | createAccount name creator authority isUserAccount =>
    simp only [State.apply, State.createAccount, bind_ok_iff] at applied
    obtain ⟨_, -, _, -, _, -, created⟩ := applied
    exact createAccountByFaucets_consistent consistent created
  | updateAccount account owner active activeOverrides =>
    simp only [State.apply, State.updateAccount, bind_ok_iff, pure_ok_iff] at applied
    obtain ⟨_, -, _, -, _, -, _, -, rfl⟩ := applied
    exact consistent.modifyAuthority account _
  | recoverAccount account owner =>
    simp only [State.apply, State.recoverAccount, bind_ok_iff, pure_ok_iff] at applied
    obtain ⟨_, -, rfl⟩ := applied
    exact consistent.modifyAuthority account _
  | join member researchGroup researches => exact join_consistent consistent applied
  | leave member researchGroup => exact leave_consistent consistent applied
  | createResearch => exact createResearchFor_consistent consistent applied
  | updateResearch => exact updateResearch_consistent consistent applied

/-! ## The genesis -/

theorem initGenesisResearchGroup_consistent {state next : State Key} {group : GenesisGroup Key}
    (none : state.researches = []) (consistent : Consistent state)
    (ran : initGenesisResearchGroup state group = .ok next) :
    Consistent next ∧ next.researches = [] := by
  simp only [initGenesisResearchGroup, bind_ok_iff, pure_ok_iff] at ran
  obtain ⟨_, -, _, -, _, -, created, made, found, got, tokens, -, rfl⟩ := ran
  have begun := createAccountByFaucets_consistent consistent made
  have empty : created.researches = [] := by
    simp only [State.createAccountByFaucets, State.createGroup, bind_ok_iff, pure_ok_iff] at made
    obtain ⟨_, -, _, -, _, -, rfl⟩ := made
    exact none
  have listed := getResearchGroupByAccount_ok got
  obtain ⟨numbered, -, -⟩ := setTokens_groups begun listed tokens
  refine ⟨⟨?_, ?_, ?_⟩, empty⟩
  · rw [numbered]
    exact congrArg List.range (length_modifyFirst _ _ created.groups).symm
  · exact begun.named
  · intro research member
    have absent : research ∈ created.researches := member
    rw [empty] at absent
    exact absurd absent List.not_mem_nil

theorem initGenesisResearch_consistent {state next : State Key} {research : GenesisResearch}
    (consistent : Consistent state) (ran : initGenesisResearch state research = .ok next) :
    Consistent next := by
  simp only [initGenesisResearch, bind_ok_iff, require_ok_iff] at ran
  obtain ⟨_, -, _, -, group, found, _, members, made⟩ := ran
  refine createResearch_consistent consistent (getResearchGroupByAccount_ok found) rfl ?_ made
  exact fun member taking => members member (List.mem_toFinset.mp taking)

theorem genesis_consistent {initial : GenesisState Key} {start : State Key}
    (began : genesis initial = .ok start) : Consistent start := by
  simp only [genesis, bind_ok_iff] at began
  obtain ⟨accounts, users, groups, shared, filled⟩ := began
  have afterAccounts : Consistent accounts ∧ accounts.researches = [] := by
    refine foldlM_invariant (fun _ state => Consistent state ∧ state.researches = []) ?_ ?_ users
    · rintro account _ state next ⟨consistent, none⟩ created
      refine ⟨createAccountByFaucets_consistent consistent created, ?_⟩
      simp only [State.createAccountByFaucets, State.createGroup, bind_ok_iff, pure_ok_iff] at created
      obtain ⟨_, -, _, -, _, -, rfl⟩ := created
      exact none
    · refine ⟨⟨rfl, List.nodup_nil, ?_⟩, rfl⟩
      exact fun _ member => absurd member List.not_mem_nil
  have afterGroups : Consistent groups ∧ groups.researches = [] := by
    refine foldlM_invariant (fun _ state => Consistent state ∧ state.researches = []) ?_
      afterAccounts shared
    rintro group _ state next ⟨consistent, none⟩ ran
    exact initGenesisResearchGroup_consistent none consistent ran
  refine foldlM_invariant (fun _ state => Consistent state) ?_ afterGroups.1 filled
  exact fun research _ state next consistent ran => initGenesisResearch_consistent consistent ran

/-- After every run of operations the members of every research are members of the research
group that owns it. -/
theorem run_inside {initial : GenesisState Key} {start final : State Key}
    {operations : List (Operation Key)} (began : genesis initial = .ok start)
    (ran : operations.foldlM State.apply start = .ok final) :
    ∀ research ∈ final.researches, ∃ group ∈ final.groups,
      group.id = research.researchGroupId ∧ research.members ⊆ (group.tokens.map GroupToken.owner).toFinset ∧
      ∀ other ∈ final.groups, other.id = research.researchGroupId → other = group := by
  have consistent := foldlM_invariant (fun _ state => Consistent state)
    (fun _ _ _ _ consistent applied => apply_consistent consistent applied)
    (genesis_consistent began) ran
  intro research listed
  obtain ⟨group, present, same, members⟩ := consistent.inside research listed
  refine ⟨group, present, same, ?_, ?_⟩
  · exact fun member taking => List.mem_toFinset.mpr (isMember_iff.mp (members member taking))
  · exact fun other there equal => consistent.unique there present (equal.trans same.symm)

namespace Sample

/-- A chain with three users. -/
def initial : GenesisState Nat :=
  { registrar := ("registrar", 0)
    accounts := [("alice", 1), ("bob", 2), ("carol", 3)]
    researchGroups := []
    disciplines := ["physics"]
    researches := [] }

/-- Alice founds a group and starts a research, Bob joins it, and Alice leaves. -/
def founding : List (Operation Nat) :=
  [.createAccount "group" "alice"
      { owner := ⟨1, [("alice", 1)], []⟩, active := ⟨1, [("alice", 1)], []⟩, activeOverrides := [] } false,
   .createResearch "research" "group" ["physics"] ⟨"", false, none, none⟩ none,
   .join "bob" "group" (some ["research"]),
   .join "carol" "group" none,
   .leave "alice" "group"]

theorem founding_inside :
    ∃ start final, genesis initial = .ok start ∧ founding.foldlM State.apply start = .ok final ∧
      (∃ research ∈ final.researches, research.members = {"bob", "carol"}) ∧
      ∀ research ∈ final.researches, ∃ group ∈ final.groups,
        group.id = research.researchGroupId ∧
        research.members ⊆ (group.tokens.map GroupToken.owner).toFinset ∧
        ∀ other ∈ final.groups, other.id = research.researchGroupId → other = group := by
  obtain ⟨start, began, works⟩ := exists_ok_of_any (genesis initial)
    (fun start => (founding.foldlM State.apply start).toOption.any fun final =>
      final.researches.any fun research => decide (research.members = {"bob", "carol"}))
    (by decide +kernel)
  obtain ⟨final, ran, tested⟩ := exists_ok_of_any _ _ works
  obtain ⟨research, listed, members⟩ := List.any_eq_true.mp tested
  exact ⟨start, final, began, ran, ⟨research, listed, of_decide_eq_true members⟩,
    run_inside began ran⟩

end Sample

end DeipChain.Groups
