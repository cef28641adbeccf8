import DeipChain.Protocol.Authorization
import DeipChain.Protocol.Derivation

/-!
# Verification with approvals

A proposal is verified with the approvals it has collected: accounts that are taken as
approving wherever an authority names them. An operation whose required authorities are
derivable from them within the depth of the check is never found to miss one
(`verifyAuthorityWith_granted`), provided that no total of weights wraps. Together with
what the single check accepts this holds of a set of authorities exactly when all of them
fit (`checksDerivations_iff`).

What the check accepts beyond that depth depends on the order in which it finds accounts
to approve, so that one more approval can make it miss an account that it had found before
(`Detour.approval_withdraws`). Within the depth, more approvals never hurt
(`isAuthorizedToExecute_mono`).
-/
namespace DeipChain.Protocol

open Result

variable {Name Key Payload : Type}

/-- The authority exceptions of `verify_authority`. -/
def AuthorityError.Missing : AuthorityError Name → Prop
  | .missingOtherAuth _ => True
  | .missingActiveAuth _ => True
  | .missingOwnerAuth _ => True
  | _ => False

/-- The check is made unless the approval is there. -/
def unlessApproved (approved : Prop) [Decidable approved] (check : Check Name Key) :
    Check Name Key := fun state =>
  if approved then .ok (true, state) else check state

theorem unlessApproved_of_not {approved : Prop} [Decidable approved] (denied : ¬ approved)
    (check : Check Name Key) : unlessApproved approved check = check := by
  funext state
  rw [unlessApproved, if_neg denied]

section Verification

variable [LinearOrder Name] [DecidableEq Key] (accounts : Name → Option (AuthorityPack Name Key))

local instance lawfulNames : LawfulBEq Name := inferInstance

/-- The checks of `verify_authority`. Those of other authorities, of overrides and of new
accounts come first; approvals count directly for the rest. -/
def checkRequirementsWith (newAccounts : List (Name × AuthorityPack Name Key))
    (activeApprovals ownerApprovals : List Name) (requirements : Requirements Name Key)
    (start : SignState Name Key) : Except (AuthorityError Name) (SignState Name Key) := do
  let newOwners ← checkRequirements accounts newAccounts
    { requirements with
      requiredActive := []
      requiredOwner := [] } start
  let actives ← requirements.requiredActive.foldlM (fun state name =>
    demand (unlessApproved (name ∈ activeApprovals ∨ name ∈ ownerApprovals)
        (either (checkAccount accounts name) (checkOwner accounts name)))
      (.missingActiveAuth name) state) newOwners
  requirements.requiredOwner.foldlM (fun state name =>
    demand (unlessApproved (name ∈ ownerApprovals) (checkOwner accounts name))
      (.missingOwnerAuth name) state) actives

/-- `verify_authority` -/
def verifyAuthorityWith (ops : List (Operation Name Key Payload)) (keys : List Key)
    (activeApprovals ownerApprovals : List Name) : Except (AuthorityError Name) Unit := do
  let newAccounts ← extractNewAccounts ops
  let requirements ← ops.foldlM (collect accounts newAccounts) .empty
  let final ← checkRequirementsWith accounts newAccounts activeApprovals ownerApprovals
    requirements (.start keys (activeApprovals ++ ownerApprovals))
  require (∀ entry ∈ final.providedSignatures, entry.2 = true) .irrelevantSig

/-- `is_authorized_to_execute`: any exception means no. -/
def isAuthorizedToExecute (ops : List (Operation Name Key Payload)) (keyApprovals : List Key)
    (activeApprovals ownerApprovals : List Name) : Bool :=
  (verifyAuthorityWith accounts ops keyApprovals activeApprovals ownerApprovals).isOk

/-- Without approvals this is the verification of a transaction. -/
theorem verifyAuthorityWith_nil (ops : List (Operation Name Key Payload)) (keys : List Key) :
    verifyAuthorityWith accounts ops keys [] [] = verifyAuthority accounts ops keys := by
  have active : ∀ (name : Name) (check : Check Name Key),
      unlessApproved (name ∈ [] ∨ name ∈ []) check = check :=
    fun _ => unlessApproved_of_not (by simp)
  have owner : ∀ (name : Name) (check : Check Name Key),
      unlessApproved (name ∈ []) check = check :=
    fun _ => unlessApproved_of_not (by simp)
  simp only [verifyAuthorityWith, verifyAuthority, checkRequirementsWith, checkRequirements,
    SignState.start, active, owner, List.foldlM_nil, bind_assoc, pure_bind, List.append_nil]

end Verification

section Granted

variable (accounts : Name → Option (AuthorityPack Name Key))

/-- The authority is derivable from the keys and the approvals, within the depth of the
check. -/
def DerivableFrom (keys : List Key) (activeApprovals ownerApprovals : List Name)
    (auth : Authority Name Key) : Prop :=
  DerivableWithin accounts keys {name | name ∈ activeApprovals ++ ownerApprovals}
    maxSigCheckDepth auth

/-- The authorities of an account, as `verify_authority` looks them up for a required
account. -/
def findPack [BEq Name] (newAccounts : List (Name × AuthorityPack Name Key)) (name : Name) :
    Option (AuthorityPack Name Key) :=
  (newAccounts.lookup name).or (accounts name)

/-- What the operation requires is derivable. An account of the object store that has no
override for the operation may also be among the approvals itself. -/
structure Granted [BEq Name] (newAccounts : List (Name × AuthorityPack Name Key))
    (keys : List Key) (activeApprovals ownerApprovals : List Name)
    (op : Operation Name Key Payload) : Prop where
  other : ∀ auth ∈ op.requiredOther,
    DerivableFrom accounts keys activeApprovals ownerApprovals auth
  active : ∀ name ∈ op.requiredActive, ∃ pack, findPack accounts newAccounts name = some pack ∧
    (newAccounts.lookup name = none ∧ pack.activeOverrides.lookup op.which = none ∧
        (name ∈ activeApprovals ∨ name ∈ ownerApprovals) ∨
      DerivableFrom accounts keys activeApprovals ownerApprovals (pack.activeFor op.which) ∨
      DerivableFrom accounts keys activeApprovals ownerApprovals pack.owner)
  owner : ∀ name ∈ op.requiredOwner, newAccounts.lookup name = none ∧ name ∈ ownerApprovals ∨
    ∃ pack, findPack accounts newAccounts name = some pack ∧
      DerivableFrom accounts keys activeApprovals ownerApprovals pack.owner

theorem DerivableFrom.mono {accounts : Name → Option (AuthorityPack Name Key)} {keys : List Key}
    {active owner moreActive moreOwner : List Name} {auth : Authority Name Key}
    (derived : DerivableFrom accounts keys active owner auth) (activeGrows : active ⊆ moreActive)
    (ownerGrows : owner ⊆ moreOwner) : DerivableFrom accounts keys moreActive moreOwner auth :=
  DerivableWithin.mono derived fun name given => by
    rcases List.mem_append.mp given with inActive | inOwner
    · exact List.mem_append_left _ (activeGrows inActive)
    · exact List.mem_append_right _ (ownerGrows inOwner)

theorem Granted.mono [BEq Name] {accounts : Name → Option (AuthorityPack Name Key)}
    {newAccounts : List (Name × AuthorityPack Name Key)} {keys : List Key}
    {active owner moreActive moreOwner : List Name} {op : Operation Name Key Payload}
    (granted : Granted accounts newAccounts keys active owner op) (activeGrows : active ⊆ moreActive)
    (ownerGrows : owner ⊆ moreOwner) :
    Granted accounts newAccounts keys moreActive moreOwner op where
  other auth required := (granted.other auth required).mono activeGrows ownerGrows
  active name required := by
    obtain ⟨pack, found, ⟨old, plain, given⟩ | derived⟩ := granted.active name required
    · exact ⟨pack, found, .inl ⟨old, plain, given.imp (@activeGrows name) (@ownerGrows name)⟩⟩
    · exact ⟨pack, found, .inr (derived.imp (·.mono activeGrows ownerGrows)
        (·.mono activeGrows ownerGrows))⟩
  owner name required := by
    rcases granted.owner name required with ⟨old, given⟩ | ⟨pack, found, derived⟩
    · exact .inl ⟨old, ownerGrows given⟩
    · exact .inr ⟨pack, found, derived.mono activeGrows ownerGrows⟩

/-- All authorities of an account are among the authorities in question. -/
def AuthorityPack.Among (authorities : Set (Authority Name Key))
    (pack : AuthorityPack Name Key) : Prop :=
  pack.active ∈ authorities ∧ pack.owner ∈ authorities ∧
    ∀ entry ∈ pack.activeOverrides, entry.2 ∈ authorities

/-- The authorities that an operation carries are among the authorities in question. -/
structure Operation.Carries (authorities : Set (Authority Name Key))
    (op : Operation Name Key Payload) : Prop where
  other : ∀ auth ∈ op.requiredOther, auth ∈ authorities
  created : ∀ name pack, op.action = .createAccount name pack → pack.Among authorities

theorem AuthorityPack.Among.activeFor {authorities : Set (Authority Name Key)}
    {pack : AuthorityPack Name Key} (among : pack.Among authorities) (which : Nat) :
    pack.activeFor which ∈ authorities := by
  unfold AuthorityPack.activeFor
  cases overridden : pack.activeOverrides.lookup which with
  | none => exact among.1
  | some auth =>
    obtain ⟨before, after, entries, _⟩ := List.lookup_eq_some_iff.mp overridden
    exact among.2.2 (which, auth) (by simp [entries])

/-- The requirements of granted operations: each of them is derivable. -/
structure Requirements.Met (authorities : Set (Authority Name Key)) [BEq Name]
    (newAccounts : List (Name × AuthorityPack Name Key)) (keys : List Key)
    (activeApprovals ownerApprovals : List Name) (requirements : Requirements Name Key) :
    Prop where
  other : ∀ auth ∈ requirements.other, auth ∈ authorities ∧
    DerivableFrom accounts keys activeApprovals ownerApprovals auth
  activeOverrides : ∀ entry ∈ requirements.activeOverrides, entry.2 ∈ authorities ∧
    ∃ pack, accounts entry.1 = some pack ∧
      (DerivableFrom accounts keys activeApprovals ownerApprovals entry.2 ∨
        DerivableFrom accounts keys activeApprovals ownerApprovals pack.owner)
  requiredNewActive : ∀ entry ∈ requirements.requiredNewActive, entry.2 ∈ authorities ∧
    ∃ pack, newAccounts.lookup entry.1 = some pack ∧
      (DerivableFrom accounts keys activeApprovals ownerApprovals entry.2 ∨
        DerivableFrom accounts keys activeApprovals ownerApprovals pack.owner)
  requiredNewOwner : ∀ entry ∈ requirements.requiredNewOwner, entry.2 ∈ authorities ∧
    DerivableFrom accounts keys activeApprovals ownerApprovals entry.2
  requiredActive : ∀ name ∈ requirements.requiredActive,
    (name ∈ activeApprovals ∨ name ∈ ownerApprovals) ∨ ∃ pack, accounts name = some pack ∧
      (DerivableFrom accounts keys activeApprovals ownerApprovals pack.active ∨
        DerivableFrom accounts keys activeApprovals ownerApprovals pack.owner)
  requiredOwner : ∀ name ∈ requirements.requiredOwner, name ∈ ownerApprovals ∨
    ∃ pack, accounts name = some pack ∧
      DerivableFrom accounts keys activeApprovals ownerApprovals pack.owner

theorem forall_mem_append_singleton {A : Type} {elements : List A} {element : A} {holds : A → Prop}
    (old : ∀ other ∈ elements, holds other) (new : holds element) :
    ∀ other ∈ elements ++ [element], holds other := by
  intro other member
  rcases List.mem_append.mp member with before | only
  · exact old other before
  · exact List.mem_singleton.mp only ▸ new

variable [LinearOrder Name] {accounts : Name → Option (AuthorityPack Name Key)}
  {authorities : Set (Authority Name Key)} {newAccounts : List (Name × AuthorityPack Name Key)}
  {keys : List Key} {activeApprovals ownerApprovals : List Name}
  {requirements : Requirements Name Key}

theorem forall_mem_insertName {names : List Name} {name : Name} {holds : Name → Prop}
    (old : ∀ other ∈ names, holds other) (new : holds name) :
    ∀ other ∈ insertName names name, holds other := by
  intro other member
  rcases mem_insertName.mp member with rfl | before
  · exact new
  · exact old other before

theorem requireActive_met (stored : Stored accounts authorities)
    (created : ∀ name pack, newAccounts.lookup name = some pack → pack.Among authorities)
    (met : requirements.Met accounts authorities newAccounts keys activeApprovals ownerApprovals)
    {op : Operation Name Key Payload}
    (granted : Granted accounts newAccounts keys activeApprovals ownerApprovals op) {name : Name}
    (required : name ∈ op.requiredActive) :
    ∃ next, requireActive accounts newAccounts op.which requirements name = .ok next ∧
      next.Met accounts authorities newAccounts keys activeApprovals ownerApprovals := by
  obtain ⟨pack, found, derived⟩ := granted.active name required
  cases new : newAccounts.lookup name with
  | some other =>
    rw [findPack, new, Option.some_or] at found
    obtain rfl := Option.some.inj found
    rw [requireActive, new]
    refine ⟨_, rfl, { met with requiredNewActive := ?_ }⟩
    refine forall_mem_append_singleton met.requiredNewActive
      ⟨(created name other new).activeFor op.which, other, new, ?_⟩
    rcases derived with ⟨old, _⟩ | derived
    · rw [new] at old
      cases old
    · exact derived
  | none =>
    rw [findPack, new, Option.none_or] at found
    have looked : getPack accounts name = .ok pack := by
      rw [getPack, found, expect]
    cases overridden : pack.activeOverrides.lookup op.which with
    | some override =>
      have placed : requireActive accounts newAccounts op.which requirements name =
          .ok { requirements with
            activeOverrides := requirements.activeOverrides ++ [(name, override)] } := by
        rw [requireActive, new]
        simp only [looked, bind, Except.bind, overridden]
      rw [placed]
      refine ⟨_, rfl, { met with activeOverrides := ?_ }⟩
      have own : pack.activeFor op.which = override := by
        rw [AuthorityPack.activeFor, overridden, Option.getD_some]
      have among : pack.Among authorities := stored name pack found
      refine forall_mem_append_singleton met.activeOverrides
        ⟨own ▸ among.activeFor op.which, pack, found, ?_⟩
      rcases derived with ⟨_, plain, _⟩ | derived
      · rw [overridden] at plain
        cases plain
      · exact own ▸ derived
    | none =>
      have placed : requireActive accounts newAccounts op.which requirements name =
          .ok { requirements with
            requiredActive := insertName requirements.requiredActive name } := by
        rw [requireActive, new]
        simp only [looked, bind, Except.bind, overridden]
      rw [placed]
      refine ⟨_, rfl, { met with requiredActive := ?_ }⟩
      have own : pack.activeFor op.which = pack.active := by
        rw [AuthorityPack.activeFor, overridden, Option.getD_none]
      refine forall_mem_insertName met.requiredActive ?_
      rcases derived with ⟨_, _, given⟩ | derived
      · exact .inl given
      · exact .inr ⟨pack, found, own ▸ derived⟩

theorem requireOwner_met
    (created : ∀ name pack, newAccounts.lookup name = some pack → pack.Among authorities)
    (met : requirements.Met accounts authorities newAccounts keys activeApprovals ownerApprovals)
    {op : Operation Name Key Payload}
    (granted : Granted accounts newAccounts keys activeApprovals ownerApprovals op) {name : Name}
    (required : name ∈ op.requiredOwner) :
    (requireOwner newAccounts requirements name).Met accounts authorities newAccounts keys
      activeApprovals ownerApprovals := by
  have derived := granted.owner name required
  unfold requireOwner
  cases new : newAccounts.lookup name with
  | some pack =>
    refine { met with requiredNewOwner := ?_ }
    refine forall_mem_append_singleton met.requiredNewOwner ⟨(created name pack new).2.1, ?_⟩
    rcases derived with ⟨old, _⟩ | ⟨other, found, derived⟩
    · rw [new] at old
      cases old
    · rw [findPack, new, Option.some_or] at found
      exact Option.some.inj found ▸ derived
  | none =>
    refine { met with requiredOwner := ?_ }
    refine forall_mem_insertName met.requiredOwner ?_
    rcases derived with ⟨_, given⟩ | ⟨pack, found, derived⟩
    · exact .inl given
    · rw [findPack, new, Option.none_or] at found
      exact .inr ⟨pack, found, derived⟩

/-- The requirements of granted operations are collected, and met. -/
theorem collect_met (stored : Stored accounts authorities)
    (created : ∀ name pack, newAccounts.lookup name = some pack → pack.Among authorities)
    {ops : List (Operation Name Key Payload)} (carries : ∀ op ∈ ops, op.Carries authorities)
    (granted : ∀ op ∈ ops, Granted accounts newAccounts keys activeApprovals ownerApprovals op) :
    ∃ requirements, ops.foldlM (collect accounts newAccounts) .empty = .ok requirements ∧
      requirements.Met accounts authorities newAccounts keys activeApprovals ownerApprovals := by
  refine foldlM_runs (fun op member requirements met => ?_)
    ⟨by simp [Requirements.empty], by simp [Requirements.empty], by simp [Requirements.empty],
      by simp [Requirements.empty], by simp [Requirements.empty], by simp [Requirements.empty]⟩
  have others : ({ requirements with other := requirements.other ++ op.requiredOther } :
      Requirements Name Key).Met accounts authorities newAccounts keys activeApprovals
        ownerApprovals := by
    refine { met with other := fun auth among => ?_ }
    rcases List.mem_append.mp among with before | own
    · exact met.other auth before
    · exact ⟨(carries op member).other auth own, (granted op member).other auth own⟩
  obtain ⟨actives, ran, activesMet⟩ := foldlM_runs (fun name required state met =>
    requireActive_met stored created met (granted op member) required) others
  refine ⟨_, by rw [collect, ran]; rfl, ?_⟩
  exact List.foldlRecOn op.requiredOwner _ activesMet (fun state met name required =>
    requireOwner_met created met (granted op member) required)

end Granted

section Settles

/-- The checks went through, or an authority names an account that does not exist and it
was looked up. -/
def Settles (accounts : Name → Option (AuthorityPack Name Key))
    (authorities : Set (Authority Name Key)) (keys : List Key) (approvals : Set Name)
    (result : Except (AuthorityError Name) (SignState Name Key)) : Prop :=
  (∃ next, result = .ok next ∧ next.Reached accounts keys approvals) ∨
    ∃ name, Dangling accounts authorities name ∧ result = .error (.unknownAccount name)

variable {accounts : Name → Option (AuthorityPack Name Key)}
  {authorities : Set (Authority Name Key)} {keys : List Key} {approvals : Set Name}

theorem Settles.bind {first : Except (AuthorityError Name) (SignState Name Key)}
    {later : SignState Name Key → Except (AuthorityError Name) (SignState Name Key)}
    (settles : Settles accounts authorities keys approvals first)
    (each : ∀ state, state.Reached accounts keys approvals →
      Settles accounts authorities keys approvals (later state)) :
    Settles accounts authorities keys approvals (first >>= later) := by
  rcases settles with ⟨next, ran, reached⟩ | ⟨name, dangling, threw⟩
  · rw [ran]
    exact each next reached
  · rw [threw]
    exact .inr ⟨name, dangling, rfl⟩

/-- A check that is bound to pass. -/
abbrev Passes (accounts : Name → Option (AuthorityPack Name Key))
    (authorities : Set (Authority Name Key)) (keys : List Key) (approvals : Set Name)
    (check : Check Name Key) : Prop :=
  Decides accounts authorities keys approvals True True check

theorem demand_settles {check : Check Name Key} {missing : AuthorityError Name}
    (passes : Passes accounts authorities keys approvals check) {state : SignState Name Key}
    (reached : state.Reached accounts keys approvals) :
    Settles accounts authorities keys approvals (demand check missing state) := by
  rcases passes.2 state reached with ⟨passed, next, ran, means⟩ | ⟨name, dangling, threw⟩
  · obtain rfl := means trivial
    refine .inl ⟨next, ?_, (passes.1 state true next reached ran).1⟩
    rw [demand, ran]
    rfl
  · refine .inr ⟨name, dangling, ?_⟩
    rw [demand, threw]
    rfl

theorem demands_settle {A : Type} {check : A → Check Name Key} {missing : A → AuthorityError Name}
    {elements : List A}
    (passes : ∀ element ∈ elements, Passes accounts authorities keys approvals (check element))
    {state : SignState Name Key} (reached : state.Reached accounts keys approvals) :
    Settles accounts authorities keys approvals (elements.foldlM (fun state element =>
      demand (check element) (missing element) state) state) := by
  induction elements generalizing state with
  | nil => exact .inl ⟨state, rfl, reached⟩
  | cons element rest inductionHypothesis =>
    obtain ⟨first, others⟩ := List.forall_mem_cons.mp passes
    rw [List.foldlM_cons]
    exact (demand_settles first reached).bind fun next kept => inductionHypothesis others kept

/-- A check of one of the authorities of an account that is found. -/
theorem found_decides {allowed required : Prop} {error : AuthorityError Name}
    {found : Option (AuthorityPack Name Key)} {pack : AuthorityPack Name Key}
    {check : AuthorityPack Name Key → Check Name Key} (known : found = some pack)
    (decides : Decides accounts authorities keys approvals allowed required (check pack)) :
    Decides accounts authorities keys approvals allowed required
      (fun state => do check (← expect found error) state) := by
  subst known
  exact decides

theorem unlessApproved_passes {approved : Prop} [Decidable approved] {check : Check Name Key}
    (passes : ¬ approved → Passes accounts authorities keys approvals check) :
    Passes accounts authorities keys approvals (unlessApproved approved check) := by
  by_cases given : approved
  · have same : unlessApproved approved check = fun state => .ok (true, state) := by
      funext state
      rw [unlessApproved, if_pos given]
    rw [same]
    refine ⟨fun state passed next within ran => ?_, fun state _ => .inl ⟨true, state, rfl, by simp⟩⟩
    cases ran
    exact ⟨within, fun _ => trivial⟩
  · rw [unlessApproved_of_not given]
    exact passes given

variable [LinearOrder Name] [DecidableEq Key]

theorem authority_passes (stored : Stored accounts authorities)
    (fits : ∀ auth ∈ authorities, auth.Fits) {auth : Authority Name Key}
    (member : auth ∈ authorities) :
    Decides accounts authorities keys approvals True
      (DerivableWithin accounts keys approvals maxSigCheckDepth auth)
      (checkAuthority accounts maxSigCheckDepth auth) :=
  (checkAuthority_complete stored fits maxSigCheckDepth member).imp (fun _ => trivial) id

theorem checkOwner_decides (stored : Stored accounts authorities)
    (fits : ∀ auth ∈ authorities, auth.Fits) {name : Name} {pack : AuthorityPack Name Key}
    (known : accounts name = some pack) :
    Decides accounts authorities keys approvals True
      (DerivableWithin accounts keys approvals maxSigCheckDepth pack.owner)
      (checkOwner accounts name) :=
  @found_decides _ _ accounts authorities keys approvals _ _ (.unknownAccount name) _ _
    (fun pack => checkAuthority accounts maxSigCheckDepth pack.owner) known
    (authority_passes stored fits (stored name pack known).2.1)

theorem checkAccount_decides (stored : Stored accounts authorities)
    (fits : ∀ auth ∈ authorities, auth.Fits) {name : Name} {pack : AuthorityPack Name Key}
    (known : accounts name = some pack) :
    Decides accounts authorities keys approvals True
      (DerivableWithin accounts keys approvals maxSigCheckDepth pack.active ∨
        DerivableWithin accounts keys approvals maxSigCheckDepth pack.owner)
      (checkAccount accounts name) := by
  have active := @found_decides _ _ accounts authorities keys approvals _ _ (.unknownAccount name)
    _ _ (fun pack => checkAuthority accounts maxSigCheckDepth pack.active) known
    (authority_passes stored fits (stored name pack known).1)
  have both := either_decides active (checkOwner_decides stored fits known)
  constructor
  · intro state passed next within ran
    rw [checkAccount] at ran
    split at ran
    · cases ran
      exact ⟨within, fun _ => trivial⟩
    · exact both.1 state passed next within ran
  · intro state reached
    rw [checkAccount]
    split
    · exact .inl ⟨true, state, rfl, fun _ => rfl⟩
    · exact both.2 state reached

variable {newAccounts : List (Name × AuthorityPack Name Key)}
  {activeApprovals ownerApprovals : List Name}

/-- Requirements that are met are found to be. -/
theorem checkRequirementsWith_settles (stored : Stored accounts authorities)
    (fits : ∀ auth ∈ authorities, auth.Fits)
    (created : ∀ name pack, newAccounts.lookup name = some pack → pack.Among authorities)
    {requirements : Requirements Name Key}
    (met : requirements.Met accounts authorities newAccounts keys activeApprovals ownerApprovals)
    {start : SignState Name Key}
    (begun : start.Reached accounts keys {name | name ∈ activeApprovals ++ ownerApprovals}) :
    Settles accounts authorities keys {name | name ∈ activeApprovals ++ ownerApprovals}
      (checkRequirementsWith accounts newAccounts activeApprovals ownerApprovals requirements
        start) := by
  have first : Settles accounts authorities keys
      {name | name ∈ activeApprovals ++ ownerApprovals}
      (checkRequirements accounts newAccounts
        { requirements with
          requiredActive := []
          requiredOwner := [] } start) := by
    unfold checkRequirements
    refine (demands_settle (fun auth member => ?_) begun).bind fun others afterOthers => ?_
    · obtain ⟨among, derived⟩ := met.other auth member
      exact (authority_passes stored fits among).imp id fun _ => derived
    refine (demands_settle (fun entry member => ?_) afterOthers).bind fun overrides after => ?_
    · obtain ⟨among, pack, known, derived⟩ := met.activeOverrides entry member
      exact (either_decides (authority_passes stored fits among)
        (checkOwner_decides stored fits known)).imp id fun _ => derived
    refine (demands_settle (fun entry member => ?_) after).bind fun newActives afterActives => ?_
    · obtain ⟨among, pack, known, derived⟩ := met.requiredNewActive entry member
      have owner := @found_decides _ _ accounts authorities keys
        {name | name ∈ activeApprovals ++ ownerApprovals} _ _ (.unknownAccount entry.1) _ _
        (fun pack => checkAuthority accounts maxSigCheckDepth pack.owner) known
        (authority_passes stored fits (created entry.1 pack known).2.1)
      exact (either_decides (authority_passes stored fits among) owner).imp id fun _ => derived
    refine (demands_settle (fun entry member => ?_) afterActives).bind fun owners last => ?_
    · obtain ⟨among, derived⟩ := met.requiredNewOwner entry member
      exact (authority_passes stored fits among).imp id fun _ => derived
    exact .inl ⟨owners, rfl, last⟩
  refine first.bind fun newOwners afterOwners => ?_
  refine (demands_settle (fun name member => ?_) afterOwners).bind fun actives afterActives => ?_
  · refine unlessApproved_passes fun denied => ?_
    rcases met.requiredActive name member with given | ⟨pack, known, derived⟩
    · exact absurd given denied
    · exact (either_decides (checkAccount_decides stored fits known)
        (checkOwner_decides stored fits known)).imp id fun _ => .inl derived
  refine demands_settle (fun name member => ?_) afterActives
  refine unlessApproved_passes fun denied => ?_
  rcases met.requiredOwner name member with given | ⟨pack, known, derived⟩
  · exact absurd given denied
  · exact (checkOwner_decides stored fits known).imp id fun _ => derived

/-- The verification of granted operations succeeds, unless a signature is not needed or an
authority names an account that does not exist. -/
theorem verifyAuthorityWith_granted (stored : Stored accounts authorities)
    (fits : ∀ auth ∈ authorities, auth.Fits) {ops : List (Operation Name Key Payload)}
    (carries : ∀ op ∈ ops, op.Carries authorities)
    (extracted : extractNewAccounts ops = .ok newAccounts)
    (granted : ∀ op ∈ ops, Granted accounts newAccounts keys activeApprovals ownerApprovals op) :
    verifyAuthorityWith accounts ops keys activeApprovals ownerApprovals = .ok () ∨
      keys ≠ [] ∧ verifyAuthorityWith accounts ops keys activeApprovals ownerApprovals =
        .error .irrelevantSig ∨
      ∃ name, Dangling accounts authorities name ∧
        verifyAuthorityWith accounts ops keys activeApprovals ownerApprovals =
          .error (.unknownAccount name) := by
  have created : ∀ name pack, newAccounts.lookup name = some pack → pack.Among authorities := by
    intro name pack found
    obtain ⟨op, member, creates⟩ := extractNewAccounts_created extracted found
    exact (carries op member).created name pack creates
  obtain ⟨requirements, collected, met⟩ := collect_met stored created carries granted
  have settles := checkRequirementsWith_settles stored fits created met
    (SignState.start_reached accounts keys (activeApprovals ++ ownerApprovals))
  have unfolded : verifyAuthorityWith accounts ops keys activeApprovals ownerApprovals =
      checkRequirementsWith accounts newAccounts activeApprovals ownerApprovals requirements
        (.start keys (activeApprovals ++ ownerApprovals)) >>= fun final =>
        require (∀ entry ∈ final.providedSignatures, entry.2 = true) .irrelevantSig := by
    simp only [verifyAuthorityWith, extracted, bind, Except.bind, collected]
  rw [unfolded]
  rcases settles with ⟨final, ran, reached⟩ | ⟨name, dangling, threw⟩
  · rw [ran]
    by_cases used : ∀ entry ∈ final.providedSignatures, entry.2 = true
    · exact .inl (require_ok_iff.mpr used)
    · right
      left
      constructor
      · rintro rfl
        exact used fun entry member => absurd (reached.provided entry member) (by simp)
      · exact if_neg used
  · rw [threw]
    exact .inr (.inr ⟨name, dangling, rfl⟩)

end Settles

section Exact

variable [LinearOrder Name] [DecidableEq Key]

/-- The checks agree with the derivations. Whatever the keys, the approvals and the depth to
which accounts are followed, and whatever earlier checks have left in the signing state, an
authority that is accepted is derivable, and one that is derivable within the depth is
accepted, unless an account that does not exist is looked up. And operations that are
granted are not found to miss an authority. -/
structure ChecksDerivations (Payload : Type) (accounts : Name → Option (AuthorityPack Name Key))
    (authorities : Set (Authority Name Key)) : Prop where
  sound : ∀ auth ∈ authorities, ∀ keys approvals depth (state next : SignState Name Key),
    state.Reached accounts keys approvals →
    checkAuthority accounts depth auth state = .ok (true, next) →
    Derivable accounts keys approvals auth
  complete : ∀ auth ∈ authorities, ∀ keys approvals depth (state : SignState Name Key),
    state.Reached accounts keys approvals → DerivableWithin accounts keys approvals depth auth →
    (∃ next, checkAuthority accounts depth auth state = .ok (true, next)) ∨
      ∃ name, Dangling accounts authorities name ∧
        checkAuthority accounts depth auth state = .error (.unknownAccount name)
  verified : ∀ ops : List (Operation Name Key Payload), (∀ op ∈ ops, op.Carries authorities) →
    ∀ keys activeApprovals ownerApprovals,
    (∀ newAccounts, extractNewAccounts ops = .ok newAccounts → ∀ op ∈ ops,
      Granted accounts newAccounts keys activeApprovals ownerApprovals op) →
    ∀ thrown, verifyAuthorityWith accounts ops keys activeApprovals ownerApprovals =
      .error thrown → ¬ thrown.Missing

omit [DecidableEq Key] in
theorem extractNewAccounts_error {ops : List (Operation Name Key Payload)}
    {thrown : AuthorityError Name} (threw : extractNewAccounts ops = .error thrown) :
    thrown = .notSupported := by
  obtain ⟨op, _, newAccounts, failed⟩ := foldlM_error threw
  unfold extractNewAccount at failed
  dsimp only at failed
  split at failed
  · split at failed <;> cases failed
  · split at failed <;> cases failed
    rfl
  · split at failed <;> cases failed
    rfl
  · split at failed <;> cases failed
    rfl
  · split at failed <;> cases failed
    rfl
  · cases failed

/-- The checks over a set of authorities, which holds those of every account, agree with the
derivations exactly when no total of one of the authorities can wrap.

Proof: if the authorities fit, every step of the two loops is exact, and the induction over
the depth of `checkAuthority_complete` goes through. If one does not fit, the keys and the
approvals that count up to the wrap satisfy it and are refused. -/
theorem checksDerivations_iff (Payload : Type)
    (accounts : Name → Option (AuthorityPack Name Key)) (authorities : Set (Authority Name Key))
    (stored : Stored accounts authorities)
    (wellFormed : ∀ auth ∈ authorities, auth.WellFormed) :
    ChecksDerivations Payload accounts authorities ↔ ∀ auth ∈ authorities, auth.Fits := by
  constructor
  · intro checks auth member counted weight among low
    by_contra wraps
    rw [Nat.zero_add] at low wraps
    obtain ⟨keys, approvals, derived, next, refused⟩ :=
      exists_wrapped accounts (wellFormed auth member) among low (Nat.not_lt.mp wraps)
    have reached := SignState.start_reached accounts keys approvals
    rcases checks.complete auth member keys _ 0 _ reached derived with
      ⟨other, accepted⟩ | ⟨name, _, threw⟩
    · rw [refused] at accepted
      cases accepted
    · rw [refused] at threw
      cases threw
  · intro fits
    refine ⟨?_, ?_, ?_⟩
    · intro auth _ keys approvals depth state next reached accepted
      exact (checkAuthority_derivable depth auth state true next reached accepted).2 rfl
    · intro auth member keys approvals depth state reached derived
      rcases (checkAuthority_complete stored fits depth member).2 state reached with
        ⟨passed, next, ran, means⟩ | unknown
      · obtain rfl := means derived
        exact .inl ⟨next, ran⟩
      · exact .inr unknown
    · intro ops carries keys activeApprovals ownerApprovals granted thrown threw missing
      cases extracted : extractNewAccounts ops with
      | error other =>
        rw [verifyAuthorityWith, extracted] at threw
        obtain rfl := Except.error.inj threw
        rw [extractNewAccounts_error extracted] at missing
        exact missing
      | ok newAccounts =>
        rcases verifyAuthorityWith_granted stored fits carries extracted
          (granted newAccounts extracted) with verified | ⟨_, unneeded⟩ | ⟨name, _, unknown⟩
        · rw [verified] at threw
          cases threw
        · rw [unneeded] at threw
          cases threw
          exact missing
        · rw [unknown] at threw
          cases threw
          exact missing

/-- Within the depth of the check more approvals never hurt. A proposal without key approvals
that is authorized, and whose required authorities are derivable from its approvals within
that depth, is authorized with any further approvals, where all named accounts exist and no
total of weights wraps. -/
theorem isAuthorizedToExecute_mono (accounts : Name → Option (AuthorityPack Name Key))
    (authorities : Set (Authority Name Key)) (stored : Stored accounts authorities)
    (fits : ∀ auth ∈ authorities, auth.Fits)
    (existing : ∀ name, ¬ Dangling accounts authorities name)
    (ops : List (Operation Name Key Payload)) (carries : ∀ op ∈ ops, op.Carries authorities)
    (active owner moreActive moreOwner : List Name) (activeGrows : active ⊆ moreActive)
    (ownerGrows : owner ⊆ moreOwner)
    (granted : ∀ newAccounts, extractNewAccounts ops = .ok newAccounts → ∀ op ∈ ops,
      Granted accounts newAccounts [] active owner op)
    (authorized : isAuthorizedToExecute accounts ops [] active owner = true) :
    isAuthorizedToExecute accounts ops [] moreActive moreOwner = true := by
  cases extracted : extractNewAccounts ops with
  | error thrown =>
    rw [isAuthorizedToExecute, verifyAuthorityWith, extracted] at authorized
    cases authorized
  | ok newAccounts =>
    have still : ∀ op ∈ ops, Granted accounts newAccounts [] moreActive moreOwner op :=
      fun op member => (granted newAccounts extracted op member).mono activeGrows ownerGrows
    rcases verifyAuthorityWith_granted stored fits carries extracted still with
      verified | ⟨keyed, _⟩ | ⟨name, dangling, _⟩
    · rw [isAuthorizedToExecute, verified]
      rfl
    · exact absurd rfl keyed
    · exact absurd dangling (existing name)

end Exact

/-!
## Two accounts that name each other

The names and the keys are numbers.
-/

namespace Cycle

/-- An authority of one key. -/
def keyAuthority (key : Nat) : Authority Nat Nat :=
  { weightThreshold := 1, accountAuths := [], keyAuths := [(key, 1)] }

/-- An authority of accounts of weight one. -/
def accountAuthority (threshold : Nat) (names : List Nat) : Authority Nat Nat :=
  { weightThreshold := threshold, accountAuths := names.map (fun name => (name, 1)), keyAuths := [] }

/-- Account 1 stands behind account 2 and the other way round, or they have their keys. -/
def accounts : Nat → Option (AuthorityPack Nat Nat)
  | 1 => some { owner := keyAuthority 10, active := accountAuthority 1 [2], activeOverrides := [] }
  | 2 => some { owner := keyAuthority 20, active := accountAuthority 1 [1], activeOverrides := [] }
  | _ => none

/-- The authorities of the two. -/
def authorities : List (Authority Nat Nat) :=
  [keyAuthority 10, keyAuthority 20, accountAuthority 1 [1], accountAuthority 1 [2]]

theorem accounts_stored : Stored accounts {auth | auth ∈ authorities} := by
  intro name pack known
  unfold accounts at known
  split at known
  · cases known
    exact ⟨by decide, by decide, by simp⟩
  · cases known
    exact ⟨by decide, by decide, by simp⟩
  · cases known

theorem authorities_wellFormed : ∀ auth ∈ authorities, auth.WellFormed := by
  intro auth member
  have threshold : ∀ auth ∈ authorities, auth.weightThreshold < 2 ^ 32 := by decide
  have weights : ∀ auth ∈ authorities, ∀ weight ∈ auth.weights, weight < 2 ^ 16 := by decide
  have keys : ∀ auth ∈ authorities, (auth.keyAuths.map Prod.fst).Nodup := by decide
  have names : ∀ auth ∈ authorities, (auth.accountAuths.map Prod.fst).Nodup := by decide
  exact ⟨threshold auth member, weights auth member, keys auth member, names auth member⟩

theorem authorities_fit : ∀ auth ∈ authorities, auth.Fits := by
  intro auth member
  have small : ∀ auth ∈ authorities, 0 + auth.weights.sum < 2 ^ 32 := by decide
  exact .of_sum (small auth member)

/-- The checks over them agree with the derivations. -/
theorem authorities_checked : ChecksDerivations Unit accounts {auth | auth ∈ authorities} :=
  (checksDerivations_iff Unit accounts {auth | auth ∈ authorities} accounts_stored
    authorities_wellFormed).mpr authorities_fit

/-- An operation that account 2 has to authorize. -/
def op : Operation Nat Nat Unit :=
  { which := 7
    requiredActive := [2]
    requiredOwner := []
    requiredOther := []
    action := .other
    payload := () }

theorem op_granted : ∀ newAccounts, extractNewAccounts [op] = .ok newAccounts →
    ∀ other ∈ [op], Granted accounts newAccounts [] [1] [] other := by
  intro newAccounts extracted other member
  obtain rfl := List.mem_singleton.mp member
  obtain rfl : [] = newAccounts := Except.ok.inj extracted
  refine ⟨by simp [op], fun name required => ?_, by simp [op]⟩
  obtain rfl := List.mem_singleton.mp required
  refine ⟨_, rfl, .inr (.inl ?_)⟩
  have approved : (1 : Nat) ∈ approversWithin accounts ([] : List Nat)
      {name | name ∈ [1] ++ []} maxSigCheckDepth := approvals_subset_within _ _ _ _ (by simp)
  change 1 ≤ 0 + weightOf [(1, 1)] (approversWithin accounts ([] : List Nat)
    {name | name ∈ [1] ++ []} maxSigCheckDepth)
  rw [weightOf_cons_of_mem approved]
  simp

/-- Account 1 approves for account 2, and an owner approval of account 2 does not harm. -/
theorem op_authorized : isAuthorizedToExecute accounts [op] [] [1] [2] = true := by
  refine isAuthorizedToExecute_mono accounts {auth | auth ∈ authorities} accounts_stored
    authorities_fit ?_ [op] ?_ [1] [] [1] [2] (List.Subset.refl _) (by simp) op_granted (by decide)
  · rintro name ⟨unknown, auth, member, listed⟩
    have names : ∀ auth ∈ authorities, ∀ name ∈ auth.accountAuths.map Prod.fst,
        (accounts name).isSome := by decide
    have known := names auth member name listed
    rw [unknown] at known
    cases known
  · intro other member
    obtain rfl := List.mem_singleton.mp member
    exact ⟨by simp [op], fun name pack creates => by cases creates⟩

end Cycle

/-!
## An approval that is in the way

Account 1 needs accounts 2 and 3. Account 2 stands on account 5, and account 3 on account 4,
which stands on account 5 as well; account 5 stands on account 6.
-/

namespace Detour

open Cycle

/-- The accounts, each with its own owner key. -/
def accounts : Nat → Option (AuthorityPack Nat Nat)
  | 1 => some { owner := keyAuthority 10, active := accountAuthority 2 [2, 3], activeOverrides := [] }
  | 2 => some { owner := keyAuthority 20, active := accountAuthority 1 [5], activeOverrides := [] }
  | 3 => some { owner := keyAuthority 30, active := accountAuthority 1 [4], activeOverrides := [] }
  | 4 => some { owner := keyAuthority 40, active := accountAuthority 1 [5], activeOverrides := [] }
  | 5 => some { owner := keyAuthority 50, active := accountAuthority 1 [6], activeOverrides := [] }
  | 6 => some { owner := keyAuthority 60, active := keyAuthority 61, activeOverrides := [] }
  | _ => none

/-- An operation that account 1 has to authorize. -/
def op : Operation Nat Nat Unit :=
  { which := 7
    requiredActive := [1]
    requiredOwner := []
    requiredOther := []
    action := .other
    payload := () }

/-- With the approval of account 6 the check goes through account 2 to account 5, remembers
it, and so needs to go no deeper than account 4 afterwards. With an approval of account 2
besides it does not come by account 5, which is then too deep below account 4. -/
theorem approval_withdraws : isAuthorizedToExecute accounts [op] [] [6] [] = true ∧
    isAuthorizedToExecute accounts [op] [] [6, 2] [] = false := by
  decide

end Detour

end DeipChain.Protocol
