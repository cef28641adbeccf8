import DeipChain.Protocol.Authority

/-!
# Transactions and the authorities they need

`verify_authority` looks the required accounts of a transaction up in two places: in the
object store, and among the accounts that the same transaction creates. For the latter it
takes the authorities that the transaction itself names, before anything says that the
name is free. What makes this sound is the transaction as a whole: a name that is taken
makes `create_account` throw, accounts are never removed, and a transaction that throws
has no effect. So in a transaction that is applied, every account that was there before
is checked against its own authorities (`applied_transaction_authorized`).
-/
namespace DeipChain.Protocol

open Result

variable {Name Key Sig Payload R : Type}

/-- What `extract_new_accounts` looks at in an operation. -/
inductive AccountAction (Name Key : Type) where
  | createAccount (newAccountName : Name) (auths : AuthorityPack Name Key)
  | updateAccount (account : Name)
  | requestAccountRecovery (accountToRecover : Name)
  | recoverAccount (accountToRecover : Name)
  | changeRecoveryAccount (accountToRecover : Name)
  | other

/-- An operation: its type, the authorities it requires, and its other fields. -/
structure Operation (Name Key Payload : Type) where
  which : Nat
  requiredActive : List Name
  requiredOwner : List Name
  requiredOther : List (Authority Name Key)
  action : AccountAction Name Key
  payload : Payload

/-- The active authority that counts for a type of operation. -/
def AuthorityPack.activeFor (pack : AuthorityPack Name Key) (which : Nat) : Authority Name Key :=
  (pack.activeOverrides.lookup which).getD pack.active

/-- What the operations of a transaction require, collected. -/
structure Requirements (Name Key : Type) where
  requiredActive : List Name
  requiredOwner : List Name
  other : List (Authority Name Key)
  activeOverrides : List (Name × Authority Name Key)
  requiredNewActive : List (Name × Authority Name Key)
  requiredNewOwner : List (Name × Authority Name Key)

/-- Nothing required. -/
def Requirements.empty : Requirements Name Key := ⟨[], [], [], [], [], []⟩

section Verification

variable [LinearOrder Name]

local instance lawfulName : LawfulBEq Name := inferInstance

/-- The step of `new_account_authority_extractor` for one operation. The first pack of a
name stays. -/
def extractNewAccount (newAccounts : List (Name × AuthorityPack Name Key))
    (op : Operation Name Key Payload) :
    Except (AuthorityError Name) (List (Name × AuthorityPack Name Key)) :=
  let unlessNew (name : Name) :=
    if (newAccounts.lookup name).isSome then .error .notSupported else .ok newAccounts
  match op.action with
  | .createAccount name auths =>
    if (newAccounts.lookup name).isSome then .ok newAccounts
    else .ok (newAccounts ++ [(name, auths)])
  | .updateAccount name => unlessNew name
  | .requestAccountRecovery name => unlessNew name
  | .recoverAccount name => unlessNew name
  | .changeRecoveryAccount name => unlessNew name
  | .other => .ok newAccounts

/-- `extract_new_accounts` -/
def extractNewAccounts (ops : List (Operation Name Key Payload)) :
    Except (AuthorityError Name) (List (Name × AuthorityPack Name Key)) :=
  ops.foldlM extractNewAccount []

/-- `insert` of a `flat_set` -/
def insertName (set : List Name) (name : Name) : List Name :=
  if name ∈ set then set else set.orderedInsert (· ≤ ·) name

/-- A required active authority, put where it belongs. -/
def requireActive (accounts : Name → Option (AuthorityPack Name Key))
    (newAccounts : List (Name × AuthorityPack Name Key)) (which : Nat)
    (requirements : Requirements Name Key) (name : Name) :
    Except (AuthorityError Name) (Requirements Name Key) :=
  match newAccounts.lookup name with
  | some pack =>
    .ok { requirements with
      requiredNewActive := requirements.requiredNewActive ++ [(name, pack.activeFor which)] }
  | none => do
    let pack ← getPack accounts name
    match pack.activeOverrides.lookup which with
    | some override =>
      .ok { requirements with
        activeOverrides := requirements.activeOverrides ++ [(name, override)] }
    | none =>
      .ok { requirements with requiredActive := insertName requirements.requiredActive name }

/-- A required owner authority, put where it belongs. -/
def requireOwner (newAccounts : List (Name × AuthorityPack Name Key))
    (requirements : Requirements Name Key) (name : Name) : Requirements Name Key :=
  match newAccounts.lookup name with
  | some pack =>
    { requirements with requiredNewOwner := requirements.requiredNewOwner ++ [(name, pack.owner)] }
  | none => { requirements with requiredOwner := insertName requirements.requiredOwner name }

/-- The loop body of `verify_authority` for one operation. -/
def collect (accounts : Name → Option (AuthorityPack Name Key))
    (newAccounts : List (Name × AuthorityPack Name Key)) (requirements : Requirements Name Key)
    (op : Operation Name Key Payload) : Except (AuthorityError Name) (Requirements Name Key) := do
  let others := { requirements with other := requirements.other ++ op.requiredOther }
  let actives ← op.requiredActive.foldlM (requireActive accounts newAccounts op.which) others
  pure (op.requiredOwner.foldl (requireOwner newAccounts) actives)

/-- `DEIP_ASSERT` of a check. -/
def demand (check : Check Name Key) (missing : AuthorityError Name) (state : SignState Name Key) :
    Except (AuthorityError Name) (SignState Name Key) := do
  let (passed, next) ← check state
  if passed then pure next else throw missing

variable [DecidableEq Key] (accounts : Name → Option (AuthorityPack Name Key))

/-- `check_authority(get_owner(name))` -/
def checkOwner (name : Name) : Check Name Key :=
  fun state => do checkAuthority accounts maxSigCheckDepth (← getPack accounts name).owner state

/-- The checks of `verify_authority`, with no approvals given. -/
def checkRequirements (newAccounts : List (Name × AuthorityPack Name Key))
    (requirements : Requirements Name Key) (start : SignState Name Key) :
    Except (AuthorityError Name) (SignState Name Key) := do
  let others ← requirements.other.foldlM (fun state auth =>
    demand (checkAuthority accounts maxSigCheckDepth auth)
      (.missingOtherAuth "Missing Authority") state) start
  let overrides ← requirements.activeOverrides.foldlM (fun state entry =>
    demand (either (checkAuthority accounts maxSigCheckDepth entry.2) (checkOwner accounts entry.1))
      (.missingOtherAuth "Missing Overridden Authority") state) others
  let newActives ← requirements.requiredNewActive.foldlM (fun state entry =>
    demand (either (checkAuthority accounts maxSigCheckDepth entry.2)
        (fun state => do
          let pack ← expect (newAccounts.lookup entry.1) (.unknownAccount entry.1)
          checkAuthority accounts maxSigCheckDepth pack.owner state))
      (.missingOtherAuth "Missing New Account Active Authority") state) overrides
  let newOwners ← requirements.requiredNewOwner.foldlM (fun state entry =>
    demand (checkAuthority accounts maxSigCheckDepth entry.2)
      (.missingOtherAuth "Missing New Account Owner Authority") state) newActives
  let actives ← requirements.requiredActive.foldlM (fun state name =>
    demand (either (checkAccount accounts name) (checkOwner accounts name))
      (.missingActiveAuth name) state) newOwners
  requirements.requiredOwner.foldlM (fun state name =>
    demand (checkOwner accounts name) (.missingOwnerAuth name) state) actives

/-- `verify_authority` -/
def verifyAuthority (ops : List (Operation Name Key Payload)) (keys : List Key) :
    Except (AuthorityError Name) Unit := do
  let newAccounts ← extractNewAccounts ops
  let requirements ← ops.foldlM (collect accounts newAccounts) .empty
  let final ← checkRequirements accounts newAccounts requirements
    { providedSignatures := keys.map (fun key => (key, false)), approvedBy := [] }
  require (∀ entry ∈ final.providedSignatures, entry.2 = true) .irrelevantSig

end Verification

section Laws

/-- Nothing that is required is dropped. -/
structure Requirements.Grows (before after : Requirements Name Key) : Prop where
  requiredActive : before.requiredActive ⊆ after.requiredActive
  requiredOwner : before.requiredOwner ⊆ after.requiredOwner
  activeOverrides : before.activeOverrides ⊆ after.activeOverrides

theorem Requirements.Grows.refl (requirements : Requirements Name Key) :
    requirements.Grows requirements :=
  ⟨List.Subset.refl _, List.Subset.refl _, List.Subset.refl _⟩

theorem Requirements.Grows.trans {first second third : Requirements Name Key}
    (one : first.Grows second) (two : second.Grows third) : first.Grows third :=
  ⟨List.Subset.trans one.requiredActive two.requiredActive,
    List.Subset.trans one.requiredOwner two.requiredOwner,
    List.Subset.trans one.activeOverrides two.activeOverrides⟩

variable [LinearOrder Name] {newAccounts : List (Name × AuthorityPack Name Key)}
  {ops : List (Operation Name Key Payload)}

theorem lookup_append_self {name other : Name} {auths pack : AuthorityPack Name Key}
    (found : (newAccounts ++ [(other, auths)]).lookup name = some pack) :
    newAccounts.lookup name = some pack ∨ name = other ∧ pack = auths := by
  rw [List.lookup_append, Option.or_eq_some_iff] at found
  rcases found with old | ⟨_, new⟩
  · exact .inl old
  · right
    by_cases same : name = other
    · subst same
      rw [List.lookup_cons_self] at new
      exact ⟨rfl, (Option.some.inj new).symm⟩
    · rw [List.lookup_cons, beq_false_of_ne same] at new
      cases new

/-- A name is taken for new only if an operation creates it, with these authorities. -/
theorem extractNewAccounts_created (extracted : extractNewAccounts ops = .ok newAccounts)
    {name : Name} {pack : AuthorityPack Name Key} (found : newAccounts.lookup name = some pack) :
    ∃ op ∈ ops, op.action = .createAccount name pack := by
  have created := foldlM_invariant
    (fun rest accounts => (∀ op ∈ rest, op ∈ ops) ∧
      ∀ name pack, accounts.lookup name = some pack →
        ∃ op ∈ ops, op.action = .createAccount name pack)
    (fun op rest accounts next before stepped => ?_) ⟨fun _ member => member, by simp⟩ extracted
  · exact created.2 name pack found
  · obtain ⟨among, created⟩ := before
    refine ⟨fun other member => among other (List.mem_cons_of_mem _ member), ?_⟩
    have unchanged : next = accounts → ∀ name pack, next.lookup name = some pack →
        ∃ op ∈ ops, op.action = .createAccount name pack := by
      rintro rfl
      exact created
    unfold extractNewAccount at stepped
    dsimp only at stepped
    split at stepped
    · rename_i new auths action
      split at stepped
      · exact unchanged (Except.ok.inj stepped).symm
      · intro other pack found
        rw [← Except.ok.inj stepped] at found
        rcases lookup_append_self found with old | ⟨rfl, rfl⟩
        · exact created other pack old
        · exact ⟨op, among op List.mem_cons_self, action⟩
    all_goals first
      | exact unchanged (Except.ok.inj stepped).symm
      | (split at stepped
         · cases stepped
         · exact unchanged (Except.ok.inj stepped).symm)

theorem mem_insertName {set : List Name} {name other : Name} :
    other ∈ insertName set name ↔ other = name ∨ other ∈ set := by
  unfold insertName
  split
  · rename_i member
    constructor
    · exact .inr
    · rintro (rfl | old)
      · exact member
      · exact old
  · rw [List.mem_orderedInsert]

variable {accounts : Name → Option (AuthorityPack Name Key)}

/-- The active authority of a name is required as the object store has it. -/
def Placed (accounts : Name → Option (AuthorityPack Name Key))
    (requirements : Requirements Name Key) (which : Nat) (name : Name) : Prop :=
  ∃ pack, accounts name = some pack ∧
    ((∃ override, pack.activeOverrides.lookup which = some override ∧
        (name, override) ∈ requirements.activeOverrides) ∨
      pack.activeOverrides.lookup which = none ∧ name ∈ requirements.requiredActive)

omit [LinearOrder Name] in
theorem Placed.mono {before after : Requirements Name Key} {which : Nat} {name : Name}
    (placed : Placed accounts before which name) (grows : before.Grows after) :
    Placed accounts after which name := by
  obtain ⟨pack, known, ⟨override, overridden, inside⟩ | ⟨plain, inside⟩⟩ := placed
  · exact ⟨pack, known, .inl ⟨override, overridden, grows.activeOverrides inside⟩⟩
  · exact ⟨pack, known, .inr ⟨plain, grows.requiredActive inside⟩⟩

theorem requireActive_ok {which : Nat} {requirements next : Requirements Name Key} {name : Name}
    (required : requireActive accounts newAccounts which requirements name = .ok next) :
    requirements.Grows next ∧
      (newAccounts.lookup name = none → Placed accounts next which name) := by
  have same := Requirements.Grows.refl requirements
  unfold requireActive at required
  split at required
  · rename_i pack new
    rw [← Except.ok.inj required]
    exact ⟨{ same with requiredActive := same.requiredActive }, fun old => by simp [old] at new⟩
  · obtain ⟨pack, found, placed⟩ := bind_ok_iff.mp required
    have known := expect_ok_iff.mp found
    split at placed
    · rename_i override overridden
      rw [← Except.ok.inj placed]
      refine ⟨{ same with activeOverrides := List.subset_append_left _ _ }, fun _ => ?_⟩
      exact ⟨pack, known, .inl ⟨override, overridden, by simp⟩⟩
    · rename_i plain
      rw [← Except.ok.inj placed]
      refine ⟨{ same with
        requiredActive := fun other member => mem_insertName.mpr (.inr member) }, fun _ => ?_⟩
      exact ⟨pack, known, .inr ⟨plain, mem_insertName.mpr (.inl rfl)⟩⟩

theorem requireOwner_ok (newAccounts : List (Name × AuthorityPack Name Key))
    (requirements : Requirements Name Key) (name : Name) :
    requirements.Grows (requireOwner newAccounts requirements name) ∧
      (newAccounts.lookup name = none →
        name ∈ (requireOwner newAccounts requirements name).requiredOwner) := by
  have same := Requirements.Grows.refl requirements
  unfold requireOwner
  split
  · rename_i pack new
    exact ⟨{ same with requiredActive := same.requiredActive }, fun old => by simp [old] at new⟩
  · exact ⟨{ same with
      requiredOwner := fun other member => mem_insertName.mpr (.inr member) },
      fun _ => mem_insertName.mpr (.inl rfl)⟩

/-- What the requirements say of one operation. -/
structure Covers (accounts : Name → Option (AuthorityPack Name Key))
    (newAccounts : List (Name × AuthorityPack Name Key)) (requirements : Requirements Name Key)
    (op : Operation Name Key Payload) : Prop where
  active : ∀ name ∈ op.requiredActive, newAccounts.lookup name = none →
    Placed accounts requirements op.which name
  owner : ∀ name ∈ op.requiredOwner, newAccounts.lookup name = none →
    name ∈ requirements.requiredOwner

theorem Covers.mono {before after : Requirements Name Key} {op : Operation Name Key Payload}
    (covers : Covers accounts newAccounts before op) (grows : before.Grows after) :
    Covers accounts newAccounts after op where
  active name member old := (covers.active name member old).mono grows
  owner name member old := grows.requiredOwner (covers.owner name member old)

theorem requireActives_ok {which : Nat} {names : List Name}
    {requirements next : Requirements Name Key}
    (required : names.foldlM (requireActive accounts newAccounts which) requirements = .ok next) :
    requirements.Grows next ∧ ∀ name ∈ names, newAccounts.lookup name = none →
      Placed accounts next which name := by
  induction names generalizing requirements with
  | nil =>
    rw [List.foldlM_nil, pure_ok_iff] at required
    exact ⟨required ▸ .refl _, by simp⟩
  | cons name rest inductionHypothesis =>
    rw [List.foldlM_cons, bind_ok_iff] at required
    obtain ⟨middle, first, later⟩ := required
    obtain ⟨grown, own⟩ := requireActive_ok first
    obtain ⟨grows, others⟩ := inductionHypothesis later
    refine ⟨grown.trans grows, fun other member old => ?_⟩
    rcases List.mem_cons.mp member with rfl | inRest
    · exact (own old).mono grows
    · exact others other inRest old

theorem requireOwners_ok (newAccounts : List (Name × AuthorityPack Name Key)) (names : List Name)
    (requirements : Requirements Name Key) :
    requirements.Grows (names.foldl (requireOwner newAccounts) requirements) ∧
      ∀ name ∈ names, newAccounts.lookup name = none →
        name ∈ (names.foldl (requireOwner newAccounts) requirements).requiredOwner := by
  induction names generalizing requirements with
  | nil => exact ⟨.refl _, by simp⟩
  | cons name rest inductionHypothesis =>
    obtain ⟨grown, own⟩ := requireOwner_ok newAccounts requirements name
    obtain ⟨grows, others⟩ := inductionHypothesis (requireOwner newAccounts requirements name)
    refine ⟨grown.trans grows, fun other member old => ?_⟩
    rcases List.mem_cons.mp member with rfl | inRest
    · exact grows.requiredOwner (own old)
    · exact others other inRest old

theorem collect_ok {requirements next : Requirements Name Key} {op : Operation Name Key Payload}
    (collected : collect accounts newAccounts requirements op = .ok next) :
    requirements.Grows next ∧ Covers accounts newAccounts next op := by
  obtain ⟨actives, required, finished⟩ := bind_ok_iff.mp collected
  rw [pure_ok_iff] at finished
  subst finished
  obtain ⟨grown, active⟩ := requireActives_ok required
  obtain ⟨grows, owner⟩ := requireOwners_ok newAccounts op.requiredOwner actives
  have begun : requirements.Grows
      { requirements with other := requirements.other ++ op.requiredOther } :=
    ⟨List.Subset.refl _, List.Subset.refl _, List.Subset.refl _⟩
  exact ⟨begun.trans (grown.trans grows),
    fun name member old => (active name member old).mono grows, owner⟩

/-- The requirements of a transaction cover each of its operations. -/
theorem collectAll_ok {requirements final : Requirements Name Key}
    (collected : ops.foldlM (collect accounts newAccounts) requirements = .ok final) :
    requirements.Grows final ∧ ∀ op ∈ ops, Covers accounts newAccounts final op := by
  induction ops generalizing requirements with
  | nil =>
    rw [List.foldlM_nil, pure_ok_iff] at collected
    exact ⟨collected ▸ .refl _, by simp⟩
  | cons op rest inductionHypothesis =>
    rw [List.foldlM_cons, bind_ok_iff] at collected
    obtain ⟨middle, first, later⟩ := collected
    obtain ⟨grown, own⟩ := collect_ok first
    obtain ⟨grows, others⟩ := inductionHypothesis later
    refine ⟨grown.trans grows, fun other member => ?_⟩
    rcases List.mem_cons.mp member with rfl | inRest
    · exact own.mono grows
    · exact others other inRest

variable {keys : List Key}

omit [LinearOrder Name] in
/-- A loop of demands passes only when each of its checks has passed. -/
theorem demands_sound {A : Type} {property : A → Prop} {check : A → Check Name Key}
    {missing : A → AuthorityError Name}
    (each : ∀ element, SoundCheck accounts keys (property element) (check element))
    {elements : List A} {state final : SignState Name Key} (sound : state.Sound accounts keys)
    (ran : elements.foldlM (fun state element =>
      demand (check element) (missing element) state) state = .ok final) :
    final.Sound accounts keys ∧ ∀ element ∈ elements, property element := by
  induction elements generalizing state with
  | nil =>
    rw [List.foldlM_nil, pure_ok_iff] at ran
    exact ⟨ran ▸ sound, by simp⟩
  | cons element rest inductionHypothesis =>
    rw [List.foldlM_cons, bind_ok_iff] at ran
    obtain ⟨middle, demanded, later⟩ := ran
    obtain ⟨⟨passed, next⟩, checked, accepted⟩ := bind_ok_iff.mp demanded
    obtain ⟨kept, means⟩ := each element state passed next sound checked
    dsimp only at accepted
    split at accepted
    · rename_i yes
      rw [pure_ok_iff] at accepted
      subst accepted
      obtain ⟨last, others⟩ := inductionHypothesis kept later
      refine ⟨last, fun other member => ?_⟩
      rcases List.mem_cons.mp member with rfl | inRest
      · exact means yes
      · exact others other inRest
    · cases accepted

variable [DecidableEq Key]

theorem checkOwner_sound (name : Name) :
    SoundCheck accounts keys
      (∃ pack, accounts name = some pack ∧ Satisfied accounts keys pack.owner)
      (checkOwner accounts name) :=
  pack_sound (fun pack known => (checkAuthority_sound maxSigCheckDepth pack.owner).imp
    (fun satisfied => ⟨pack, known, satisfied⟩))

/-- What the checks of `verify_authority` have established of the accounts in the object
store. -/
theorem checkRequirements_sound {requirements : Requirements Name Key}
    {start final : SignState Name Key} (sound : start.Sound accounts keys)
    (ran : checkRequirements accounts newAccounts requirements start = .ok final) :
    (∀ entry ∈ requirements.activeOverrides, Satisfied accounts keys entry.2 ∨
        ∃ pack, accounts entry.1 = some pack ∧ Satisfied accounts keys pack.owner) ∧
      (∀ name ∈ requirements.requiredActive, Approves accounts keys name) ∧
      ∀ name ∈ requirements.requiredOwner,
        ∃ pack, accounts name = some pack ∧ Satisfied accounts keys pack.owner := by
  unfold checkRequirements at ran
  obtain ⟨others, first, ran⟩ := bind_ok_iff.mp ran
  obtain ⟨overrides, second, ran⟩ := bind_ok_iff.mp ran
  obtain ⟨newActives, third, ran⟩ := bind_ok_iff.mp ran
  obtain ⟨newOwners, fourth, ran⟩ := bind_ok_iff.mp ran
  obtain ⟨actives, fifth, last⟩ := bind_ok_iff.mp ran
  obtain ⟨afterOthers, _⟩ := demands_sound
    (fun auth => checkAuthority_sound maxSigCheckDepth auth) sound first
  have overrideSound : ∀ entry : Name × Authority Name Key, SoundCheck accounts keys
      (Satisfied accounts keys entry.2 ∨
        ∃ pack, accounts entry.1 = some pack ∧ Satisfied accounts keys pack.owner)
      (either (checkAuthority accounts maxSigCheckDepth entry.2) (checkOwner accounts entry.1)) :=
    fun entry => either_sound ((checkAuthority_sound maxSigCheckDepth entry.2).imp .inl)
      ((checkOwner_sound entry.1).imp .inr)
  obtain ⟨afterOverrides, overridden⟩ := demands_sound overrideSound afterOthers second
  have newSound : ∀ entry : Name × Authority Name Key, SoundCheck accounts keys True
      (either (checkAuthority accounts maxSigCheckDepth entry.2) (fun state => do
        let pack ← expect (newAccounts.lookup entry.1) (.unknownAccount entry.1)
        checkAuthority accounts maxSigCheckDepth pack.owner state)) := by
    intro entry
    refine either_sound ((checkAuthority_sound maxSigCheckDepth entry.2).imp (fun _ => trivial)) ?_
    intro state passed next before asked
    obtain ⟨pack, _, checked⟩ := bind_ok_iff.mp asked
    exact ⟨(checkAuthority_sound maxSigCheckDepth pack.owner state passed next before checked).1,
      fun _ => trivial⟩
  obtain ⟨afterNewActives, _⟩ := demands_sound newSound afterOverrides third
  obtain ⟨afterNewOwners, _⟩ := demands_sound (fun entry : Name × Authority Name Key =>
    checkAuthority_sound maxSigCheckDepth entry.2) afterNewActives fourth
  obtain ⟨afterActives, active⟩ := demands_sound (fun name => either_sound
    (checkAccount_sound name) ((checkOwner_sound name).imp
      (fun ⟨pack, known, satisfied⟩ => .owner name pack known satisfied))) afterNewOwners fifth
  obtain ⟨_, owner⟩ := demands_sound (fun name => checkOwner_sound name) afterActives last
  exact ⟨overridden, active, owner⟩

/-- What a required account of the object store has signed for. -/
structure Authorized (accounts : Name → Option (AuthorityPack Name Key)) (keys : List Key)
    (op : Operation Name Key Payload) (name : Name) (pack : AuthorityPack Name Key) : Prop where
  active : name ∈ op.requiredActive →
    Satisfied accounts keys (pack.activeFor op.which) ∨ Satisfied accounts keys pack.owner
  owner : name ∈ op.requiredOwner → Satisfied accounts keys pack.owner

/-- A verified transaction is authorized by every account that it does not create. -/
theorem verifyAuthority_authorized
    (verified : verifyAuthority accounts ops keys = .ok ()) :
    ∃ newAccounts, extractNewAccounts ops = .ok newAccounts ∧
      ∀ op ∈ ops, ∀ name pack, accounts name = some pack → newAccounts.lookup name = none →
        Authorized accounts keys op name pack := by
  obtain ⟨newAccounts, extracted, verified⟩ := bind_ok_iff.mp verified
  obtain ⟨requirements, collected, verified⟩ := bind_ok_iff.mp verified
  obtain ⟨final, checked, _⟩ := bind_ok_iff.mp verified
  have sound : SignState.Sound accounts keys
      { providedSignatures := keys.map (fun key => (key, false)), approvedBy := [] } := by
    refine ⟨fun entry member => ?_, by simp⟩
    obtain ⟨key, signing, rfl⟩ := List.mem_map.mp member
    exact signing
  obtain ⟨overridden, active, owner⟩ := checkRequirements_sound sound checked
  refine ⟨newAccounts, extracted, fun op member name pack known old => ⟨fun required => ?_,
    fun required => ?_⟩⟩
  · obtain ⟨other, same, ⟨override, set, inside⟩ | ⟨unset, inside⟩⟩ :=
      ((collectAll_ok collected).2 op member).active name required old
    · obtain rfl := Option.some.inj (known.symm.trans same)
      rcases overridden _ inside with satisfied | ⟨owning, found, satisfied⟩
      · left
        rwa [AuthorityPack.activeFor, set, Option.getD_some]
      · obtain rfl := Option.some.inj (known.symm.trans found)
        exact .inr satisfied
    · obtain rfl := Option.some.inj (known.symm.trans same)
      cases active name inside with
      | active _ other found satisfied =>
        obtain rfl := Option.some.inj (known.symm.trans found)
        left
        rwa [AuthorityPack.activeFor, unset, Option.getD_none]
      | owner _ other found satisfied =>
        obtain rfl := Option.some.inj (known.symm.trans found)
        exact .inr satisfied
  · have inside := ((collectAll_ok collected).2 op member).owner name required old
    obtain ⟨other, found, satisfied⟩ := owner name inside
    obtain rfl := Option.some.inj (known.symm.trans found)
    exact satisfied

end Laws

section Application

/-- The accounts with their authorities, and all other objects. -/
structure AccountState (Name Key R : Type) where
  accounts : Name → Option (AuthorityPack Name Key)
  rest : R

/-- What an evaluator can do to the accounts. There is no call that removes one. -/
inductive AccountChange (Name Key : Type) where
  | create (name : Name) (auths : AuthorityPack Name Key)
  | modify (name : Name) (auths : AuthorityPack Name Key)

/-- The exceptions of `_apply_transaction`. -/
inductive TransactionError (Name : Type) where
  | duplicateSig
  | authority (thrown : AuthorityError Name)
  | uniqueness (name : Name)
  | notFound (name : Name)
  | rejected (reason : String)
  deriving DecidableEq

/-- `signed_transaction` -/
structure SignedTransaction (Name Key Sig Payload : Type) where
  operations : List (Operation Name Key Payload)
  signatures : List Sig

/-- The parts of `_apply_transaction` besides the authorities: the checks before and after
them, whether the Merkle root of the next block is among the shared exceptions, the key
of a signature, and the evaluators. The evaluator of `create_account` has a part before
and a part after it creates the account; the others give the changes they make to the
accounts. -/
structure TransactionProcessing (Name Key Sig Payload R : Type) where
  recoverKey : SignedTransaction Name Key Sig Payload → Sig → Key
  checkBefore : SignedTransaction Name Key Sig Payload → AccountState Name Key R →
    Except (TransactionError Name) Unit
  sharedMerkle : AccountState Name Key R → Bool
  checkAfter : SignedTransaction Name Key Sig Payload → AccountState Name Key R →
    Except (TransactionError Name) R
  beforeCreateAccount : Operation Name Key Payload → AccountState Name Key R →
    Except (TransactionError Name) R
  afterCreateAccount : Operation Name Key Payload → AccountState Name Key R →
    Except (TransactionError Name) R
  evaluate : Operation Name Key Payload → AccountState Name Key R →
    Except (TransactionError Name) (List (AccountChange Name Key) × R)

variable [LinearOrder Name]

/-- `create` and `modify` of an account: names are unique. -/
def applyChange (accounts : Name → Option (AuthorityPack Name Key))
    (change : AccountChange Name Key) :
    Except (TransactionError Name) (Name → Option (AuthorityPack Name Key)) :=
  match change with
  | .create name auths => do
    require (accounts name = none) (.uniqueness name)
    pure (Function.update accounts name (some auths))
  | .modify name auths => do
    require ((accounts name).isSome) (.notFound name)
    pure (Function.update accounts name (some auths))

/-- `apply_operation` -/
def applyOperation (processing : TransactionProcessing Name Key Sig Payload R)
    (state : AccountState Name Key R) (op : Operation Name Key Payload) :
    Except (TransactionError Name) (AccountState Name Key R) :=
  match op.action with
  | .createAccount name auths => do
    let rest ← processing.beforeCreateAccount op state
    let accounts ← applyChange state.accounts (.create name auths)
    let final ← processing.afterCreateAccount op ⟨accounts, rest⟩
    pure ⟨accounts, final⟩
  | _ => do
    let (changes, rest) ← processing.evaluate op state
    let accounts ← changes.foldlM applyChange state.accounts
    pure ⟨accounts, rest⟩

variable [DecidableEq Key]

/-- `get_signature_keys` -/
def SignedTransaction.keys (processing : TransactionProcessing Name Key Sig Payload R)
    (trx : SignedTransaction Name Key Sig Payload) : List Key :=
  trx.signatures.map (processing.recoverKey trx)

/-- The authority checks of `_apply_transaction`: a missing active authority is let
through when the next block is one of the shared exceptions. -/
def checkAuthorities (processing : TransactionProcessing Name Key Sig Payload R)
    (trx : SignedTransaction Name Key Sig Payload) (state : AccountState Name Key R) :
    Except (TransactionError Name) Unit := do
  require (trx.keys processing).Nodup .duplicateSig
  match verifyAuthority state.accounts trx.operations (trx.keys processing) with
  | .ok _ => pure ()
  | .error (.missingActiveAuth name) =>
    require (processing.sharedMerkle state = true) (.authority (.missingActiveAuth name))
  | .error thrown => throw (.authority thrown)

/-- `_apply_transaction` with no skip flags. -/
def applyTransaction (processing : TransactionProcessing Name Key Sig Payload R)
    (trx : SignedTransaction Name Key Sig Payload) (state : AccountState Name Key R) :
    Except (TransactionError Name) (AccountState Name Key R) := do
  processing.checkBefore trx state
  checkAuthorities processing trx state
  let rest ← processing.checkAfter trx state
  trx.operations.foldlM (applyOperation processing) ⟨state.accounts, rest⟩

variable {processing : TransactionProcessing Name Key Sig Payload R}

omit [DecidableEq Key] in
theorem applyChange_keeps {accounts next : Name → Option (AuthorityPack Name Key)}
    {change : AccountChange Name Key} (changed : applyChange accounts change = .ok next)
    {name : Name} (known : (accounts name).isSome) : (next name).isSome := by
  have updated : ∀ other auths, (Function.update accounts other (some auths) name).isSome := by
    intro other auths
    by_cases same : name = other
    · rw [same, Function.update_self]
      rfl
    · rwa [Function.update_of_ne same]
  cases change with
  | create other auths =>
    obtain ⟨_, _, written⟩ := bind_ok_iff.mp changed
    rw [pure_ok_iff] at written
    exact written ▸ updated other auths
  | modify other auths =>
    obtain ⟨_, _, written⟩ := bind_ok_iff.mp changed
    rw [pure_ok_iff] at written
    exact written ▸ updated other auths

omit [DecidableEq Key] in
/-- No operation removes an account, and one that creates an account finds the name
free. -/
theorem applyOperation_accounts {state next : AccountState Name Key R}
    {op : Operation Name Key Payload} (applied : applyOperation processing state op = .ok next) :
    (∀ name, (state.accounts name).isSome → (next.accounts name).isSome) ∧
      ∀ name auths, op.action = .createAccount name auths → state.accounts name = none := by
  unfold applyOperation at applied
  split at applied
  · rename_i new auths action
    obtain ⟨rest, _, applied⟩ := bind_ok_iff.mp applied
    obtain ⟨accounts, created, applied⟩ := bind_ok_iff.mp applied
    obtain ⟨final, _, applied⟩ := bind_ok_iff.mp applied
    rw [pure_ok_iff] at applied
    subst applied
    refine ⟨fun name known => applyChange_keeps created known, fun name auths same => ?_⟩
    rw [action] at same
    injection same with sameName
    obtain ⟨_, free, _⟩ := bind_ok_iff.mp created
    rw [← sameName]
    exact require_ok_iff.mp free
  · rename_i notCreating
    obtain ⟨⟨changes, rest⟩, _, applied⟩ := bind_ok_iff.mp applied
    obtain ⟨accounts, changed, applied⟩ := bind_ok_iff.mp applied
    rw [pure_ok_iff] at applied
    subst applied
    refine ⟨fun name known => ?_, fun name auths action => absurd action (notCreating name auths)⟩
    exact foldlM_invariant (fun _ accounts => (accounts name).isSome)
      (fun _ _ _ _ before stepped => applyChange_keeps stepped before) known changed

omit [DecidableEq Key] in
/-- The names that a transaction creates were all free before it. -/
theorem applyOperations_fresh {ops : List (Operation Name Key Payload)}
    {state final : AccountState Name Key R}
    (applied : ops.foldlM (applyOperation processing) state = .ok final)
    {op : Operation Name Key Payload} (member : op ∈ ops) {name : Name}
    {auths : AuthorityPack Name Key} (creates : op.action = .createAccount name auths) :
    state.accounts name = none := by
  induction ops generalizing state with
  | nil => cases member
  | cons first rest inductionHypothesis =>
    rw [List.foldlM_cons, bind_ok_iff] at applied
    obtain ⟨middle, stepped, later⟩ := applied
    obtain ⟨keeps, fresh⟩ := applyOperation_accounts stepped
    rcases List.mem_cons.mp member with rfl | inRest
    · exact fresh name auths creates
    · have free := inductionHypothesis later inRest
      by_contra known
      have still := keeps name (Option.isSome_iff_ne_none.mpr known)
      rw [free] at still
      cases still

/-- A transaction that is applied is authorized. Every account that existed before it and
that one of its operations requires has satisfied, with the keys of the signatures, the
authority that the operation requires: for an active authority the override of the
operation's type or else the active authority, or the owner authority; for an owner
authority the owner authority. And no operation creates an account whose name was taken.

Proof: an account that `verify_authority` takes for new is one that an operation of the
transaction creates, and creating an account whose name is taken throws. So an account
that existed before was looked up in the object store. -/
theorem applied_transaction_authorized (trx : SignedTransaction Name Key Sig Payload)
    (state final : AccountState Name Key R) (unshared : processing.sharedMerkle state = false)
    (applied : applyTransaction processing trx state = .ok final) :
    (∀ op ∈ trx.operations, ∀ name pack, state.accounts name = some pack →
        Authorized state.accounts (trx.keys processing) op name pack) ∧
      ∀ op ∈ trx.operations, ∀ name auths, op.action = .createAccount name auths →
        state.accounts name = none := by
  obtain ⟨_, _, applied⟩ := bind_ok_iff.mp applied
  obtain ⟨_, checked, applied⟩ := bind_ok_iff.mp applied
  obtain ⟨rest, _, ran⟩ := bind_ok_iff.mp applied
  have fresh : ∀ op ∈ trx.operations, ∀ name auths, op.action = .createAccount name auths →
      state.accounts name = none :=
    fun op member name auths creates => applyOperations_fresh ran member creates
  refine ⟨fun op member name pack known => ?_, fresh⟩
  obtain ⟨_, _, checked⟩ := bind_ok_iff.mp checked
  have verified : verifyAuthority state.accounts trx.operations (trx.keys processing) = .ok () := by
    split at checked
    · assumption
    · rw [require_ok_iff, unshared] at checked
      cases checked
    · cases checked
  obtain ⟨newAccounts, extracted, authorized⟩ := verifyAuthority_authorized verified
  refine authorized op member name pack known ?_
  by_contra new
  obtain ⟨auths, found⟩ := Option.ne_none_iff_exists'.mp new
  obtain ⟨creating, among, creates⟩ := extractNewAccounts_created extracted found
  rw [fresh creating among name auths creates] at known
  cases known

end Application

/-!
## A transaction that creates an account and uses it

The names and the keys are numbers.
-/

namespace SmallTransaction

/-- Evaluators that do nothing. -/
def processing : TransactionProcessing Nat Nat Nat Unit Unit where
  recoverKey _ := id
  checkBefore _ _ := .ok ()
  sharedMerkle _ := false
  checkAfter _ _ := .ok ()
  beforeCreateAccount _ _ := .ok ()
  afterCreateAccount _ _ := .ok ()
  evaluate _ _ := .ok ([], ())

/-- An authority of one key. -/
def keyAuthority (key : Nat) : Authority Nat Nat :=
  { weightThreshold := 1, accountAuths := [], keyAuths := [(key, 1)] }

/-- An account with an owner key, an active key and an override for operations of type
7. -/
def account : AuthorityPack Nat Nat :=
  { owner := keyAuthority 10, active := keyAuthority 11, activeOverrides := [(7, keyAuthority 12)] }

/-- Account 1 creates account 2, whose active authority is account 1, and both sign an
operation of type 7. -/
def trx : SignedTransaction Nat Nat Nat Unit :=
  { operations :=
      [{ which := 3
         requiredActive := [1]
         requiredOwner := []
         requiredOther := []
         action := .createAccount 2
          { owner := keyAuthority 20
            active := { weightThreshold := 1, accountAuths := [(1, 1)], keyAuths := [] }
            activeOverrides := [] }
         payload := () },
        { which := 7
          requiredActive := [1, 2]
          requiredOwner := []
          requiredOther := []
          action := .other
          payload := () }]
    signatures := [11, 12] }

/-- The accounts before it. -/
def state : AccountState Nat Nat Unit :=
  { accounts := Function.update (fun _ => none) 1 (some account)
    rest := () }

/-- The transaction is applied, and account 1 has signed for the second operation. -/
theorem trx_authorized :
    ∃ final, applyTransaction processing trx state = .ok final ∧
      ∀ op ∈ trx.operations, ∀ name pack, state.accounts name = some pack →
        Authorized state.accounts (trx.keys processing) op name pack :=
  ⟨_, rfl, (applied_transaction_authorized trx state _ rfl rfl).1⟩

end SmallTransaction

end DeipChain.Protocol
