import DeipChain.Research.ResearchMembers
import Mathlib.Algebra.Order.BigOperators.Group.List

/-!
# Authorities that can be satisfied

The active authority of an account is checked when an operation sets it: its weights reach the threshold,
and the threshold is not zero. Joining a group adds a weight to the authority of the
group's account, and leaving takes one away without a look at the threshold. If the others do not
reach it, nothing can be done in the name of the group any more.
-/
namespace DeipChain.Groups

open Result Table Protocol Research

variable {Key : Type}

/-- The weights of the accounts and of the keys. -/
def weight (authority : Authority Name Key) : Nat :=
  (authority.accountAuths.map Prod.snd).sum + (authority.keyAuths.map Prod.snd).sum

/-- An authority that is possible to satisfy and not open. -/
structure Satisfiable (authority : Authority Name Key) : Prop where
  closed : minAuthThreshold ≤ authority.weightThreshold
  possible : authority.weightThreshold ≤ weight authority

instance (authority : Authority Name Key) : Decidable (Satisfiable authority) :=
  decidable_of_iff (minAuthThreshold ≤ authority.weightThreshold ∧
    authority.weightThreshold ≤ weight authority)
    ⟨fun both => ⟨both.1, both.2⟩, fun satisfiable => ⟨satisfiable.closed, satisfiable.possible⟩⟩

/-- `authority::validate`, without the names. -/
def validate (authority : Authority Name Key) : Except String Unit := do
  require (¬weight authority < authority.weightThreshold) "!is_impossible()"
  require (minAuthThreshold ≤ authority.weightThreshold) "weight_threshold >= DEIP_MIN_AUTH_THRESHOLD"

/-- The authorities that an operation sets are checked before it is applied, unless a proposal
of the genesis state brings it. -/
def Operation.validate : Operation Key → Except String Unit
  | .createAccount _ _ authority _ => do
    Groups.validate authority.owner
    Groups.validate authority.active
    authority.activeOverrides.forM fun override => Groups.validate override.2
  | .updateAccount _ owner active activeOverrides => do
    owner.toList.forM Groups.validate
    active.toList.forM Groups.validate
    activeOverrides.forM fun override => override.2.toList.forM Groups.validate
  | _ => pure ⟨⟩

theorem validate_ok_iff {authority : Authority Name Key} {result : Unit} :
    validate authority = .ok result ↔ Satisfiable authority := by
  simp only [validate, bind_ok_iff, require_ok_iff]
  constructor
  · rintro ⟨_, possible, closed⟩
    exact ⟨closed, Nat.not_lt.mp possible⟩
  · intro satisfiable
    exact ⟨⟨⟩, Nat.not_lt.mpr satisfiable.possible, satisfiable.closed⟩

/-- Every active authority can be satisfied and is not open. -/
def Guarded (state : State Key) : Prop :=
  ∀ account ∈ state.accounts, Satisfiable account.authority.active

instance (state : State Key) : Decidable (Guarded state) :=
  inferInstanceAs (Decidable (∀ _ ∈ _, _))

/-- The weight of an account in an authority. -/
def weightOf (member : Name) (auths : List (Name × Nat)) : Nat :=
  ((auths.find? fun entry => entry.1 == member).map Prod.snd).getD 0

/-- What an operation needs to leave every active authority satisfiable: an authority that it
sets is, and a member who leaves is not needed to reach the threshold. -/
def Operation.Sustains (state : State Key) : Operation Key → Prop
  | .createAccount _ _ authority _ => Satisfiable authority.active
  | .updateAccount _ _ active _ => ∀ authority ∈ active, Satisfiable authority
  | .leave member researchGroup =>
    ∀ account ∈ state.accounts.find? (fun account => account.name == researchGroup),
      account.authority.active.weightThreshold +
        weightOf member account.authority.active.accountAuths ≤ weight account.authority.active
  | _ => True

instance (state : State Key) : (operation : Operation Key) → Decidable (operation.Sustains state)
  | .createAccount _ _ authority _ => inferInstanceAs (Decidable (Satisfiable authority.active))
  | .updateAccount _ _ _ _ => inferInstanceAs (Decidable (∀ _ ∈ _, _))
  | .leave _ _ => inferInstanceAs (Decidable (∀ _ ∈ _, _))
  | .recoverAccount _ _ => inferInstanceAs (Decidable True)
  | .join _ _ _ => inferInstanceAs (Decidable True)
  | .createResearch _ _ _ _ _ => inferInstanceAs (Decidable True)
  | .updateResearch _ _ _ _ _ _ _ => inferInstanceAs (Decidable True)

/-- An operation that has been checked can do harm only as a leave. -/
theorem Operation.sustains_of_validate {state : State Key} {operation : Operation Key} {result : Unit}
    (checked : operation.validate = .ok result)
    (staying : ∀ member researchGroup, operation ≠ .leave member researchGroup) :
    operation.Sustains state := by
  cases operation with
  | createAccount name creator authority isUserAccount =>
    simp only [Operation.validate, bind_ok_iff, validate_ok_iff] at checked
    obtain ⟨_, -, _, active, -⟩ := checked
    exact active
  | updateAccount account owner active activeOverrides =>
    simp only [Operation.validate, bind_ok_iff, forM_ok_iff, validate_ok_iff] at checked
    obtain ⟨_, -, _, given, -⟩ := checked
    exact fun authority some_ => given authority (Option.mem_toList.mpr some_)
  | leave member researchGroup => exact absurd rfl (staying member researchGroup)
  | recoverAccount => trivial
  | join => trivial
  | createResearch => trivial
  | updateResearch => trivial

/-! ## Weights -/

theorem sum_eraseP (member : Name) (auths : List (Name × Nat)) :
    ((auths.eraseP fun entry => entry.1 == member).map Prod.snd).sum + weightOf member auths =
      (auths.map Prod.snd).sum := by
  induction auths with
  | nil => rfl
  | cons entry rest hypothesis =>
    by_cases hit : (entry.1 == member) = true
    · rw [List.eraseP_cons_of_pos (p := fun entry : Name × Nat => entry.1 == member) hit, weightOf,
        List.find?_cons_of_pos (p := fun entry : Name × Nat => entry.1 == member) hit]
      simp only [Option.map_some, Option.getD_some, List.map_cons, List.sum_cons]
      omega
    · rw [List.eraseP_cons_of_neg (p := fun entry : Name × Nat => entry.1 == member) hit, weightOf,
        List.find?_cons_of_neg (p := fun entry : Name × Nat => entry.1 == member) hit, ← weightOf]
      simp only [List.map_cons, List.sum_cons]
      omega

/-- A weight that is written for an account without one is added. -/
theorem sum_writeAuth {member : Name} {auths : List (Name × Nat)} (added : Nat)
    (outside : member ∉ auths.map Prod.fst) :
    ((writeAuth member added auths).map Prod.snd).sum = added + (auths.map Prod.snd).sum := by
  rw [writeAuth, if_neg outside]
  have same := ((List.perm_orderedInsert (fun one other : Name × Nat => one.1 ≤ other.1)
    (member, added) auths).map Prod.snd).sum_eq
  rw [same, List.map_cons, List.sum_cons]

theorem addToActiveAuthority_satisfiable {pack : AuthorityPack Name Key} (member : Name) (added : Nat)
    (satisfiable : Satisfiable pack.active) :
    Satisfiable (addToActiveAuthority member added pack).active := by
  rw [addToActiveAuthority]
  split
  · exact satisfiable
  · rename_i outside
    refine ⟨satisfiable.closed, ?_⟩
    have possible := satisfiable.possible
    rw [weight] at possible ⊢
    dsimp only
    rw [sum_writeAuth added outside]
    omega

theorem removeFromActiveAuthority_satisfiable_iff {pack : AuthorityPack Name Key} (member : Name)
    (closed : minAuthThreshold ≤ pack.active.weightThreshold) :
    Satisfiable (removeFromActiveAuthority member pack).active ↔
      pack.active.weightThreshold + weightOf member pack.active.accountAuths ≤ weight pack.active := by
  have sum := sum_eraseP member pack.active.accountAuths
  have rest : weight (removeFromActiveAuthority member pack).active +
      weightOf member pack.active.accountAuths = weight pack.active := by
    rw [weight, weight, removeFromActiveAuthority]
    dsimp only
    omega
  constructor
  · intro satisfiable
    have possible : pack.active.weightThreshold ≤
        weight (removeFromActiveAuthority member pack).active := satisfiable.possible
    omega
  · intro enough
    refine ⟨closed, ?_⟩
    change pack.active.weightThreshold ≤ weight (removeFromActiveAuthority member pack).active
    omega

/-! ## Operations -/

theorem createGroup_accounts {state next : State Key} {account member : Name} {isPersonal : Bool}
    (created : state.createGroup account member isPersonal = .ok next) :
    next.accounts = state.accounts := by
  simp only [State.createGroup, bind_ok_iff, pure_ok_iff] at created
  obtain ⟨_, -, tokens, -, rfl⟩ := created
  rfl

theorem createAccountByFaucets_accounts {state next : State Key} {name creator : Name}
    {authority : AuthorityPack Name Key} {isUserAccount : Bool}
    (created : state.createAccountByFaucets name creator authority isUserAccount = .ok next) :
    next.accounts = state.accounts ++ [⟨name, authority⟩] := by
  simp only [State.createAccountByFaucets, bind_ok_iff] at created
  obtain ⟨_, -, made⟩ := created
  exact createGroup_accounts made

theorem accountExists_found {state : State Key} {name : Name}
    (exists_ : state.accountExists name = true) :
    ∃ account, state.accounts.find? (fun account => account.name == name) = some account := by
  rw [State.accountExists, List.any_eq_true] at exists_
  exact Option.isSome_iff_exists.mp (List.find?_isSome.mpr exists_)

/-- The active authorities after those of one account have changed. -/
theorem modifyAuthority_guarded_iff {state : State Key} {name : Name} {account : Account Key}
    {change : AuthorityPack Name Key → AuthorityPack Name Key} (guarded : Guarded state)
    (found : state.accounts.find? (fun account => account.name == name) = some account) :
    Guarded (state.modifyAuthority name change) ↔ Satisfiable (change account.authority).active :=
  forall_modifyFirst_iff guarded found

theorem sharedGroup_account {state : State Key} {member researchGroup : Name} {personal : String}
    {group : Group} (found : state.sharedGroup member researchGroup personal = .ok group) :
    group.account = researchGroup ∧
      ∃ account, state.accounts.find? (fun account => account.name == researchGroup) = some account := by
  simp only [State.sharedGroup, bind_ok_iff, require_ok_iff, pure_ok_iff] at found
  obtain ⟨_, -, _, known, here, got, _, -, rfl⟩ := found
  rw [State.getResearchGroupByAccount, expect_ok_iff] at got
  exact ⟨by simpa using List.find?_some got, accountExists_found known⟩

/-- What joining and leaving do to the active authorities. -/
theorem membership_guarded_iff {state : State Key} {account : Account Key} {name : Name} {id : Nat}
    {tokens : List GroupToken} {chosen : ResearchObject → Bool} {members : Finset Name → Finset Name}
    {change : AuthorityPack Name Key → AuthorityPack Name Key} (guarded : Guarded state)
    (found : state.accounts.find? (fun account => account.name == name) = some account) :
    Guarded (((state.updateMembers chosen members).setTokens id tokens).modifyAuthority name change) ↔
      Satisfiable (change account.authority).active :=
  modifyAuthority_guarded_iff guarded found

theorem join_guarded {state next : State Key} {member researchGroup : Name}
    {researches : Option (List String)} (guarded : Guarded state)
    (joined : state.join member researchGroup researches = .ok next) : Guarded next := by
  simp only [State.join, bind_ok_iff, require_ok_iff, pure_ok_iff] at joined
  obtain ⟨group, found, _, -, _, -, tokens, -, rfl⟩ := joined
  obtain ⟨rfl, account, here⟩ := sharedGroup_account found
  exact (membership_guarded_iff guarded here).mpr
    (addToActiveAuthority_satisfiable member minAuthThreshold
      (guarded account (List.mem_of_find?_eq_some here)))

theorem leave_guarded_iff {state next : State Key} {member researchGroup : Name}
    (guarded : Guarded state) (left : state.leave member researchGroup = .ok next) :
    (Operation.leave member researchGroup).Sustains state ↔ Guarded next := by
  simp only [State.leave, bind_ok_iff, require_ok_iff, pure_ok_iff] at left
  obtain ⟨group, found, _, -, tokens, -, rfl⟩ := left
  obtain ⟨rfl, account, here⟩ := sharedGroup_account found
  have satisfiable := guarded account (List.mem_of_find?_eq_some here)
  rw [membership_guarded_iff guarded here,
    removeFromActiveAuthority_satisfiable_iff member satisfiable.closed]
  constructor
  · exact fun sustains => sustains account here
  · intro enough other same
    rw [here] at same
    cases same
    exact enough

/-- An operation leaves every active authority satisfiable exactly if it sustains them. -/
theorem apply_guarded_iff {state next : State Key} {operation : Operation Key}
    (guarded : Guarded state) (applied : state.apply operation = .ok next) :
    operation.Sustains state ↔ Guarded next := by
  cases operation with
  | createAccount name creator authority isUserAccount =>
    simp only [State.apply, State.createAccount, bind_ok_iff] at applied
    obtain ⟨_, -, _, -, _, -, created⟩ := applied
    rw [Guarded, createAccountByFaucets_accounts created]
    constructor
    · exact fun sustains => forall_append_singleton guarded sustains
    · exact fun all => all _ (List.mem_append_right _ List.mem_cons_self)
  | updateAccount name owner active activeOverrides =>
    simp only [State.apply, State.updateAccount, bind_ok_iff, require_ok_iff, pure_ok_iff] at applied
    obtain ⟨_, known, _, -, _, -, _, -, rfl⟩ := applied
    obtain ⟨account, here⟩ := accountExists_found known
    have satisfiable := guarded account (List.mem_of_find?_eq_some here)
    rw [modifyAuthority_guarded_iff guarded here]
    cases active with
    | none =>
      refine ⟨fun _ => ?_, fun _ => by rintro _ ⟨⟩⟩
      cases owner with
      | none => exact satisfiable
      | some authority => exact satisfiable
    | some authority =>
      constructor
      · exact fun sustains => sustains authority rfl
      · rintro now _ ⟨⟩
        exact now
  | recoverAccount name owner =>
    simp only [State.apply, State.recoverAccount, bind_ok_iff, require_ok_iff, pure_ok_iff] at applied
    obtain ⟨_, known, rfl⟩ := applied
    obtain ⟨account, here⟩ := accountExists_found known
    refine ⟨fun _ => ?_, fun _ => trivial⟩
    exact (modifyAuthority_guarded_iff guarded here).mpr
      (guarded account (List.mem_of_find?_eq_some here))
  | join member researchGroup researches =>
    exact ⟨fun _ => join_guarded guarded applied, fun _ => trivial⟩
  | leave member researchGroup => exact leave_guarded_iff guarded applied
  | createResearch externalId researchGroup disciplines details members =>
    simp only [State.apply, State.createResearchFor, State.createResearch, bind_ok_iff,
      pure_ok_iff] at applied
    obtain ⟨_, -, group, -, _, -, _, -, _, -, _, -, rfl⟩ := applied
    exact ⟨fun _ => guarded, fun _ => trivial⟩
  | updateResearch =>
    simp only [State.apply, State.updateResearch, bind_ok_iff, pure_ok_iff] at applied
    obtain ⟨_, -, group, -, _, -, research, -, _, -, _, -, rfl⟩ := applied
    exact ⟨fun _ => guarded, fun _ => trivial⟩

/-! ## The genesis -/

theorem keyAuthority_satisfiable (key : Key) : Satisfiable (keyAuthority key).active :=
  ⟨Nat.le_refl 1, Nat.le_refl 1⟩

/-- The weights of one that the genesis writes. -/
theorem writeAuth_ones (member : Name) {auths : List (Name × Nat)}
    (ones : ∀ entry ∈ auths, entry.2 = 1) :
    writeAuth member 1 auths ≠ [] ∧ ∀ entry ∈ writeAuth member 1 auths, entry.2 = 1 := by
  rw [writeAuth]
  split
  · rename_i inside
    constructor
    · intro empty
      have none := congrArg List.length empty
      rw [length_modifyFirst, List.length_nil, List.length_eq_zero_iff] at none
      rw [none] at inside
      exact absurd inside List.not_mem_nil
    · exact forall_modifyFirst ones (fun _ _ _ => rfl)
  · constructor
    · intro empty
      have same := List.perm_orderedInsert (fun one other : Name × Nat => one.1 ≤ other.1)
        (member, 1) auths
      rw [empty] at same
      exact List.cons_ne_nil _ _ (List.nil_perm.mp same)
    · intro entry listed
      rcases (List.mem_orderedInsert _).mp listed with rfl | old
      · rfl
      · exact ones entry old

theorem groupAuthority_satisfiable {group : GenesisGroup Key} (some_ : 0 < group.members.length) :
    Satisfiable (groupAuthority group).active := by
  have written : ∀ (members : List Name) (auths : List (Name × Nat)),
      (∀ entry ∈ auths, entry.2 = 1) → (auths ≠ [] ∨ members ≠ []) →
      members.foldl (fun auths member => writeAuth member 1 auths) auths ≠ [] ∧
        ∀ entry ∈ members.foldl (fun auths member => writeAuth member 1 auths) auths,
          entry.2 = 1 := by
    intro members
    induction members with
    | nil => exact fun auths ones nonempty => ⟨nonempty.resolve_right (fun no => no rfl), ones⟩
    | cons member rest hypothesis =>
      intro auths ones _
      obtain ⟨nonempty, still⟩ := writeAuth_ones member ones
      exact hypothesis _ still (Or.inl nonempty)
  have members := written group.members [] (fun _ listed => absurd listed List.not_mem_nil)
    (Or.inr (List.length_pos_iff.mp some_))
  have accounts : (groupAuthority group).active.accountAuths ≠ [] ∧
      ∀ entry ∈ (groupAuthority group).active.accountAuths, entry.2 = 1 := by
    rw [groupAuthority]
    dsimp only
    split
    · exact writeAuth_ones group.tenant members.2
    · exact members
  refine ⟨Nat.le_refl 1, ?_⟩
  obtain ⟨first, rest, shape⟩ := List.exists_cons_of_ne_nil accounts.1
  have one : first.2 = 1 := accounts.2 first (shape ▸ List.mem_cons_self)
  rw [weight, shape, List.map_cons, List.sum_cons, one]
  change 1 ≤ _
  omega

theorem genesis_guarded {initial : GenesisState Key} {start : State Key}
    (began : genesis initial = .ok start) : Guarded start := by
  simp only [genesis, bind_ok_iff] at began
  obtain ⟨accounts, users, groups, shared, filled⟩ := began
  have afterAccounts : Guarded accounts := by
    refine foldlM_invariant (fun _ state => Guarded state) ?_ ?_ users
    · intro account _ state next guarded created
      rw [Guarded, createAccountByFaucets_accounts created]
      exact forall_append_singleton guarded (keyAuthority_satisfiable account.2)
    · exact List.forall_mem_singleton.mpr (keyAuthority_satisfiable initial.registrar.2)
  have afterGroups : Guarded groups := by
    refine foldlM_invariant (fun _ state => Guarded state) ?_ afterAccounts shared
    intro group _ state next guarded ran
    simp only [initGenesisResearchGroup, bind_ok_iff, require_ok_iff, pure_ok_iff] at ran
    obtain ⟨_, some_, _, -, _, -, created, made, found, -, tokens, -, rfl⟩ := ran
    rw [Guarded, State.setTokens, createAccountByFaucets_accounts made]
    exact forall_append_singleton guarded (groupAuthority_satisfiable some_)
  refine foldlM_invariant (fun _ state => Guarded state) ?_ afterGroups filled
  intro research _ state next guarded ran
  simp only [initGenesisResearch, State.createResearch, bind_ok_iff, pure_ok_iff] at ran
  obtain ⟨_, -, _, -, group, -, _, -, _, -, rfl⟩ := ran
  exact guarded

/-- In every state of a run every active authority can be satisfied and is not open, exactly if no
member leaves whose weight the threshold needs, and no unchecked operation sets one that is
not. -/
theorem run_guarded_iff {initial : GenesisState Key} {start final : State Key}
    {operations : List (Operation Key)} (began : genesis initial = .ok start)
    (ran : operations.foldlM State.apply start = .ok final) :
    Visits State.apply Guarded start operations ↔
      Along State.apply (fun state operation => operation.Sustains state) start operations :=
  visits_iff_along_ran (fun _ _ _ guarded applied => apply_guarded_iff guarded applied)
    (genesis_guarded began) ran

namespace Sample

/-- Alice founds a group with Bob in which both have to agree. -/
def agreeing : List (Operation Nat) :=
  [.createAccount "group" "alice"
      { owner := ⟨2, [("alice", 1), ("bob", 1)], []⟩
        active := ⟨2, [("alice", 1), ("bob", 1)], []⟩
        activeOverrides := [] } false,
   .join "bob" "group" none]

/-- Bob leaves. -/
def parting : List (Operation Nat) := agreeing ++ [.leave "bob" "group"]

/-- Every operation has been checked, and in the end nobody can act for the group. -/
theorem parting_frozen :
    ∃ start final, genesis initial = .ok start ∧
      parting.foldlM State.apply start = .ok final ∧
      (∀ operation ∈ parting, operation.validate = .ok ()) ∧ ¬Guarded final := by
  obtain ⟨start, began, works⟩ := exists_ok_of_any (genesis initial)
    (fun start => (parting.foldlM State.apply start).toOption.any fun final =>
      decide (¬Guarded final)) (by decide +kernel)
  obtain ⟨final, ran, tested⟩ := exists_ok_of_any _ _ works
  exact ⟨start, final, began, ran, by decide +kernel, of_decide_eq_true tested⟩

/-- Carol joins and leaves instead. -/
def visiting : List (Operation Nat) :=
  agreeing ++ [.join "carol" "group" none, .leave "carol" "group"]

theorem visiting_guarded :
    ∃ start final, genesis initial = .ok start ∧ visiting.foldlM State.apply start = .ok final ∧
      Visits State.apply Guarded start visiting := by
  obtain ⟨start, began, works⟩ := exists_ok_of_any (genesis initial)
    (fun start => (visiting.foldlM State.apply start).isOk &&
      passes State.apply (fun state operation => decide (operation.Sustains state)) start visiting)
    (by decide +kernel)
  rw [Bool.and_eq_true] at works
  obtain ⟨final, ran⟩ := exists_ok _ works.1
  exact ⟨start, final, began, ran, (run_guarded_iff began ran).mpr
    (Along.of_passes (fun _ _ => of_decide_eq_true) works.2)⟩

end Sample

end DeipChain.Groups
