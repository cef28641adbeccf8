import DeipChain.Protocol.Approvals
import DeipChain.Protocol.Asking

/-!
# Minimal signatures

Where the candidates come from the authorities that `verify_authority` checks, leaving out keys one
by one ends at a set without which nothing can be missed. A set that is sufficient, and of which
each key is asked for, stays so when a key that is not missed is left out, because of fewer keys
more are asked for.

`get_required_signatures` does not see the active overrides of an account, nor the accounts that
the transaction creates. There the candidates can be the wrong keys, and `minimize_required_signatures`
returns them all the same (`overridden_not_verified`).
-/
namespace DeipChain.Protocol

open Result

variable {Name Key Payload : Type}

section Loops

variable {accounts : Name → Option (AuthorityPack Name Key)} {keys available : List Key}
  {state : SignState Name Key} {A : Type} {property : A → Prop} {asked : A → Key → Prop}
  {check : A → Check Name Key}

theorem Resolves.congr {holds other : Prop} {sought later : Key → Prop} {check : Check Name Key}
    (resolves : Resolves accounts keys available holds sought check) (same : holds ↔ other)
    (agree : ∀ key, sought key ↔ later key) :
    Resolves accounts keys available other later check := by
  intro state kept
  obtain ⟨passed, next, ran, passes, moved⟩ := resolves state kept
  exact ⟨passed, next, ran, passes.trans same, moved.congr fun key _ _ => agree key⟩

/-- A loop of demands goes through when all of them are met. -/
theorem demands_resolve (missing : A → AuthorityError Name) {elements : List A}
    (each : ∀ element ∈ elements, Resolves accounts keys available (property element)
      (asked element) (check element))
    (kept : state.Kept accounts keys available) :
    (∀ element ∈ elements, property element) ∧
        (∃ final, elements.foldlM (fun state element =>
            demand (check element) (missing element) state) state = .ok final ∧
          Moves accounts keys available state final
            (fun key => ∃ element ∈ elements, asked element key)) ∨
      (¬ ∀ element ∈ elements, property element) ∧
        ∃ element, elements.foldlM (fun state element =>
          demand (check element) (missing element) state) state = .error (missing element) := by
  induction elements generalizing state with
  | nil =>
    left
    refine ⟨by simp, state, rfl, (Moves.refl kept).congr fun key _ _ => ?_⟩
    simp
  | cons first rest hypothesis =>
    obtain ⟨passed, middle, ran, passes, moved⟩ := each first List.mem_cons_self state kept
    rw [List.foldlM_cons, demand]
    simp only [ran, bind, Except.bind]
    cases passed with
    | false =>
      have fails : ¬ property first := fun holds => by cases passes.mpr holds
      exact .inr ⟨fun all => fails (all first List.mem_cons_self), first, rfl⟩
    | true =>
      have holds := passes.mp rfl
      rcases hypothesis (fun element member => each element (List.mem_cons_of_mem _ member))
        moved.kept with ⟨all, final, looped, further⟩ | ⟨some, element, looped⟩
      · left
        refine ⟨List.forall_mem_cons.mpr ⟨holds, all⟩, final, looped, ?_⟩
        refine (moved.trans further).congr fun key _ _ => ?_
        simp only [List.mem_cons, exists_eq_or_imp]
      · right
        exact ⟨fun all => some (List.forall_mem_cons.mp all).2, element, looped⟩

/-- A loop of checks asks for what each of them asks for. -/
theorem asks_resolve {elements : List A}
    (each : ∀ element ∈ elements, Resolves accounts keys available (property element)
      (asked element) (check element))
    (kept : state.Kept accounts keys available) :
    ∃ final, elements.foldlM (fun state element => ask (check element) state) state = .ok final ∧
      Moves accounts keys available state final
        (fun key => ∃ element ∈ elements, asked element key) := by
  induction elements generalizing state with
  | nil =>
    refine ⟨state, rfl, (Moves.refl kept).congr fun key _ _ => ?_⟩
    simp
  | cons first rest hypothesis =>
    obtain ⟨passed, middle, ran, -, moved⟩ := each first List.mem_cons_self state kept
    obtain ⟨final, looped, further⟩ := hypothesis
      (fun element member => each element (List.mem_cons_of_mem _ member)) moved.kept
    refine ⟨final, ?_, (moved.trans further).congr fun key _ _ => ?_⟩
    · rw [List.foldlM_cons, ask]
      simp only [ran, bind, Except.bind, pure, Except.pure]
      exact looped
    · simp only [List.mem_cons, exists_eq_or_imp]

end Loops

section Requirements

variable (accounts : Name → Option (AuthorityPack Name Key)) (keys : List Key)
  (requirements : Requirements Name Key)

/-- Every requirement is satisfied. -/
structure Met : Prop where
  other : ∀ auth ∈ requirements.other, Derivable accounts keys ∅ auth
  active : ∀ name ∈ requirements.requiredActive, name ∈ approvers accounts keys ∅
  owner : ∀ name ∈ requirements.requiredOwner, ∃ pack, accounts name = some pack ∧
    Derivable accounts keys ∅ pack.owner

/-- Some requirement asks for a key. -/
def AskedBy (sought : Key) : Prop :=
  (∃ auth ∈ requirements.other, Asked accounts keys auth sought) ∨
    (∃ name ∈ requirements.requiredActive, AskedOf accounts keys name sought) ∨
    ∃ name ∈ requirements.requiredOwner, ∃ pack, accounts name = some pack ∧
      Asked accounts keys pack.owner sought

/-- The requirements are those of old accounts without overrides, and they are followed to their
end. -/
structure Followed : Prop where
  other : ∀ auth ∈ requirements.other, Nested accounts maxSigCheckDepth auth
  active : ∀ name ∈ requirements.requiredActive, NestedAccount accounts maxSigCheckDepth name
  owner : ∀ name ∈ requirements.requiredOwner, ∃ pack, accounts name = some pack ∧
    Nested accounts maxSigCheckDepth pack.owner
  activeOverrides : requirements.activeOverrides = []
  requiredNewActive : requirements.requiredNewActive = []
  requiredNewOwner : requirements.requiredNewOwner = []

variable {accounts keys requirements} {more : List Key}

theorem Met.mono (met : Met accounts keys requirements) (grows : keys ⊆ more) :
    Met accounts more requirements where
  other auth member := (met.other auth member).keys_mono grows
  active name member := approvers_keys_mono grows (met.active name member)
  owner name member := by
    obtain ⟨pack, known, derivable⟩ := met.owner name member
    exact ⟨pack, known, derivable.keys_mono grows⟩

theorem AskedBy.anti {sought : Key} (asked : AskedBy accounts more requirements sought)
    (grows : keys ⊆ more) : AskedBy accounts keys requirements sought := by
  rcases asked with ⟨auth, member, asked⟩ | ⟨name, member, asked⟩ | ⟨name, member, pack, known, asked⟩
  · exact .inl ⟨auth, member, asked.anti grows⟩
  · exact .inr (.inl ⟨name, member, asked.anti grows⟩)
  · exact .inr (.inr ⟨name, member, pack, known, asked.anti grows⟩)

end Requirements

section Verification

variable [LinearOrder Name] [DecidableEq Key]
  {accounts : Name → Option (AuthorityPack Name Key)} {keys available : List Key}
  {requirements : Requirements Name Key} {state : SignState Name Key}

omit [LinearOrder Name] [DecidableEq Key] in
theorem SignState.Kept.start {signatureKeys : List Key}
    (signing : ∀ key, key ∈ keys ↔ key ∈ signatureKeys ∨ key ∈ available) :
    SignState.Kept accounts keys available
      { providedSignatures := signatureKeys.map (fun key => (key, false)), approvedBy := [] } where
  signing key := by
    rw [List.map_map, signing]
    simp
  marked := by
    intro entry _ used
    obtain ⟨_, _, same⟩ := List.mem_map.mp used
    simp at same
  remembered name member := absurd member List.not_mem_nil

omit [LinearOrder Name] [DecidableEq Key] in
theorem start_used (signatureKeys : List Key) :
    ({ providedSignatures := signatureKeys.map (fun key => (key, false)), approvedBy := [] } :
      SignState Name Key).used = ∅ := by
  ext key
  simp [SignState.used]

/-- The check of an old account's active authority: the owner authority adds nothing. -/
theorem checkActive_resolves {name : Name} (nested : NestedAccount accounts maxSigCheckDepth name) :
    Resolves accounts keys [] (name ∈ approvers accounts keys ∅) (AskedOf accounts keys name)
      (either (checkAccount accounts name) (checkOwner accounts name)) := by
  have account : Resolves accounts keys [] (name ∈ approvers accounts keys ∅)
      (AskedOf accounts keys name) (checkAccount accounts name) := by
    rw [← checkAccountFor_nil]
    exact checkAccountFor_resolves nested
  obtain ⟨pack, known, -, owner⟩ := nested
  have owned : Resolves accounts keys [] (Derivable accounts keys ∅ pack.owner)
      (Asked accounts keys pack.owner) (checkOwner accounts name) := by
    have resolves : Resolves accounts keys [] (Derivable accounts keys ∅ pack.owner)
        (Asked accounts keys pack.owner) (checkOwnerFor accounts [] name) :=
      checkOwnerFor_resolves known owner
    rwa [checkOwnerFor_nil] at resolves
  refine (either_resolves account owned).congr ?_ fun key => ?_
  · rw [mem_approvers known]
    tauto
  · constructor
    · rintro (asked | ⟨unknown, asked⟩)
      · exact asked
      · rw [mem_approvers known, not_or] at unknown
        exact ⟨pack, known, .inr ⟨unknown.1, asked⟩⟩
    · exact .inl

/-- With all requirements met the check goes through them, and otherwise a signature is missing. -/
theorem checkRequirements_resolves (newAccounts : List (Name × AuthorityPack Name Key))
    (followed : Followed accounts requirements) (kept : state.Kept accounts keys []) :
    Met accounts keys requirements ∧
        (∃ final, checkRequirements accounts newAccounts requirements state = .ok final ∧
          Moves accounts keys [] state final (AskedBy accounts keys requirements)) ∨
      ¬ Met accounts keys requirements ∧ ∃ thrown : AuthorityError Name, thrown.Missing ∧
        checkRequirements accounts newAccounts requirements state = .error thrown := by
  have other : ∀ auth ∈ requirements.other, Resolves accounts keys [] (Derivable accounts keys ∅ auth)
      (Asked accounts keys auth) (checkAuthority accounts maxSigCheckDepth auth) := by
    intro auth member
    rw [← checkAuthorityFor_nil]
    exact checkAuthorityFor_resolves (followed.other auth member)
  have owner : ∀ name ∈ requirements.requiredOwner, Resolves accounts keys []
      (∃ pack, accounts name = some pack ∧ Derivable accounts keys ∅ pack.owner)
      (fun key => ∃ pack, accounts name = some pack ∧ Asked accounts keys pack.owner key)
      (checkOwner accounts name) := by
    intro name member
    obtain ⟨pack, known, nested⟩ := followed.owner name member
    have resolves : Resolves accounts keys [] (Derivable accounts keys ∅ pack.owner)
        (Asked accounts keys pack.owner) (checkOwnerFor accounts [] name) :=
      checkOwnerFor_resolves known nested
    rw [checkOwnerFor_nil] at resolves
    refine resolves.congr ?_ fun key => ?_
    · simp only [known, Option.some.injEq, exists_eq_left']
    · simp only [known, Option.some.injEq, exists_eq_left']
  rw [checkRequirements, followed.activeOverrides, followed.requiredNewActive,
    followed.requiredNewOwner]
  simp only [List.foldlM_nil, pure_bind]
  rcases demands_resolve (fun _ => .missingOtherAuth "Missing Authority") other kept with
    ⟨others, afterOthers, first, one⟩ | ⟨some, _, failed⟩
  · rcases demands_resolve (fun name => .missingActiveAuth name)
      (fun name member => checkActive_resolves (followed.active name member)) one.kept with
      ⟨actives, afterActives, second, two⟩ | ⟨some, name, failed⟩
    · rcases demands_resolve (fun name => .missingOwnerAuth name) owner two.kept with
        ⟨owners, final, third, three⟩ | ⟨some, name, failed⟩
      · left
        refine ⟨⟨others, actives, owners⟩, final, ?_, ((one.trans two).trans three).congr ?_⟩
        · rw [first]
          simp only [bind, Except.bind, second, third]
        · intro key _ _
          rw [AskedBy, or_assoc]
      · right
        refine ⟨fun met => some met.owner, .missingOwnerAuth name, trivial, ?_⟩
        rw [first]
        simp only [bind, Except.bind, second, failed]
    · right
      refine ⟨fun met => some met.active, .missingActiveAuth name, trivial, ?_⟩
      rw [first]
      simp only [bind, Except.bind, failed]
  · right
    refine ⟨fun met => some met.other, .missingOtherAuth "Missing Authority", trivial, ?_⟩
    rw [failed]
    rfl

/-- What `get_required_signatures` asks for. -/
theorem askRequirements_resolves (followed : Followed accounts requirements)
    (kept : state.Kept accounts keys available) :
    ∃ final, askRequirements accounts available requirements state = .ok final ∧
      Moves accounts keys available state final (AskedBy accounts keys requirements) := by
  have owner : ∀ name ∈ requirements.requiredOwner, Resolves accounts keys available
      (∃ pack, accounts name = some pack ∧ Derivable accounts keys ∅ pack.owner)
      (fun key => ∃ pack, accounts name = some pack ∧ Asked accounts keys pack.owner key)
      (checkOwnerFor accounts available name) := by
    intro name member
    obtain ⟨pack, known, nested⟩ := followed.owner name member
    have resolves : Resolves accounts keys available (Derivable accounts keys ∅ pack.owner)
        (Asked accounts keys pack.owner) (checkOwnerFor accounts available name) :=
      checkOwnerFor_resolves known nested
    refine resolves.congr ?_ fun key => ?_
    · simp only [known, Option.some.injEq, exists_eq_left']
    · simp only [known, Option.some.injEq, exists_eq_left']
  obtain ⟨others, first, one⟩ := asks_resolve
    (fun auth member => checkAuthorityFor_resolves (followed.other auth member)) kept
  obtain ⟨owners, second, two⟩ := asks_resolve owner one.kept
  obtain ⟨final, third, three⟩ := asks_resolve
    (fun name member => checkAccountFor_resolves (followed.active name member)) two.kept
  refine ⟨final, ?_, ((one.trans two).trans three).congr fun key _ _ => ?_⟩
  · rw [askRequirements, first]
    simp only [bind, Except.bind, second, third]
  · exact or_assoc.trans (or_congr_right or_comm)

/-! ## Plain transactions -/

/-- The accounts that the transaction requires are old ones, no override replaces the active
authority that is required of them, and the authorities are followed to their end. -/
structure Plain (accounts : Name → Option (AuthorityPack Name Key))
    (ops : List (Operation Name Key Payload)) : Prop where
  old : ∀ op ∈ ops, ∀ name, name ∈ op.requiredActive ∨ name ∈ op.requiredOwner →
    ∀ creating ∈ ops, ∀ auths, creating.action ≠ .createAccount name auths
  unreplaced : ∀ op ∈ ops, ∀ name ∈ op.requiredActive, ∀ pack, accounts name = some pack →
    pack.activeOverrides.lookup op.which = none
  active : ∀ op ∈ ops, ∀ name ∈ op.requiredActive, NestedAccount accounts maxSigCheckDepth name
  owner : ∀ op ∈ ops, ∀ name ∈ op.requiredOwner, ∃ pack, accounts name = some pack ∧
    Nested accounts maxSigCheckDepth pack.owner
  other : ∀ op ∈ ops, ∀ auth ∈ op.requiredOther, Nested accounts maxSigCheckDepth auth

variable {ops : List (Operation Name Key Payload)}
  {newAccounts : List (Name × AuthorityPack Name Key)}

omit [DecidableEq Key] in
theorem requireActives_plain {which : Nat} {names : List Name}
    (plain : ∀ name ∈ names, newAccounts.lookup name = none ∧ ∃ pack, accounts name = some pack ∧
      pack.activeOverrides.lookup which = none) (requirements : Requirements Name Key) :
    names.foldlM (requireActive accounts newAccounts which) requirements =
      .ok { requirements with
        requiredActive := names.foldl insertName requirements.requiredActive } := by
  induction names generalizing requirements with
  | nil => rfl
  | cons name rest hypothesis =>
    obtain ⟨old, pack, known, unreplaced⟩ := plain name List.mem_cons_self
    have stepped : requireActive accounts newAccounts which requirements name =
        .ok { requirements with
          requiredActive := insertName requirements.requiredActive name } := by
      simp only [requireActive, old, getPack, known, expect, bind, Except.bind, unreplaced]
    rw [List.foldlM_cons, stepped]
    exact hypothesis (fun other member => plain other (List.mem_cons_of_mem _ member)) _

omit [DecidableEq Key] in
theorem requireOwners_plain {names : List Name}
    (old : ∀ name ∈ names, newAccounts.lookup name = none) (requirements : Requirements Name Key) :
    names.foldl (requireOwner newAccounts) requirements =
      { requirements with
        requiredOwner := names.foldl insertName requirements.requiredOwner } := by
  induction names generalizing requirements with
  | nil => rfl
  | cons name rest hypothesis =>
    have stepped : requireOwner newAccounts requirements name =
        { requirements with
          requiredOwner := insertName requirements.requiredOwner name } := by
      simp only [requireOwner, old name List.mem_cons_self]
    rw [List.foldl_cons, stepped,
      hypothesis fun other member => old other (List.mem_cons_of_mem _ member)]
    rfl

omit [DecidableEq Key] in
/-- Both functions collect the same requirements of a plain transaction. -/
theorem collect_plain (plain : Plain accounts ops)
    (extracted : extractNewAccounts ops = .ok newAccounts) :
    ops.foldlM (collect accounts newAccounts) .empty = .ok (getRequiredAuthorities ops) := by
  have old : ∀ op ∈ ops, ∀ name, name ∈ op.requiredActive ∨ name ∈ op.requiredOwner →
      newAccounts.lookup name = none := by
    intro op member name required
    by_contra new
    obtain ⟨auths, found⟩ := Option.ne_none_iff_exists'.mp new
    obtain ⟨creating, among, creates⟩ := extractNewAccounts_created extracted found
    exact plain.old op member name required creating among auths creates
  have each : ∀ op ∈ ops, ∀ requirements : Requirements Name Key,
      collect accounts newAccounts requirements op = .ok (requireOperation requirements op) := by
    intro op member requirements
    have actives := requireActives_plain
      (fun name required => by
        obtain ⟨pack, known, -⟩ := plain.active op member name required
        exact ⟨old op member name (.inl required), pack, known,
          plain.unreplaced op member name required pack known⟩)
      { requirements with other := requirements.other ++ op.requiredOther }
    rw [collect, actives]
    simp only [bind, Except.bind, pure, Except.pure]
    rw [requireOwners_plain fun name required => old op member name (.inr required)]
    rfl
  rw [getRequiredAuthorities]
  generalize Requirements.empty = requirements
  clear old plain extracted
  induction ops generalizing requirements with
  | nil => rfl
  | cons op rest hypothesis =>
    rw [List.foldlM_cons, each op List.mem_cons_self, List.foldl_cons]
    exact hypothesis (fun other member => each other (List.mem_cons_of_mem _ member)) _

omit [DecidableEq Key] in
theorem mem_insertNames {names set : List Name} {name : Name} :
    name ∈ names.foldl insertName set ↔ name ∈ names ∨ name ∈ set := by
  induction names generalizing set with
  | nil => simp
  | cons first rest hypothesis =>
    rw [List.foldl_cons, hypothesis, mem_insertName, List.mem_cons]
    tauto

omit [DecidableEq Key] in
theorem Followed.operation {op : Operation Name Key Payload}
    (followed : Followed accounts requirements)
    (active : ∀ name ∈ op.requiredActive, NestedAccount accounts maxSigCheckDepth name)
    (owner : ∀ name ∈ op.requiredOwner, ∃ pack, accounts name = some pack ∧
      Nested accounts maxSigCheckDepth pack.owner)
    (other : ∀ auth ∈ op.requiredOther, Nested accounts maxSigCheckDepth auth) :
    Followed accounts (requireOperation requirements op) where
  other auth member := by
    rcases List.mem_append.mp member with old | new
    · exact followed.other auth old
    · exact other auth new
  active name member := by
    rcases mem_insertNames.mp member with new | old
    · exact active name new
    · exact followed.active name old
  owner name member := by
    rcases mem_insertNames.mp member with new | old
    · exact owner name new
    · exact followed.owner name old
  activeOverrides := followed.activeOverrides
  requiredNewActive := followed.requiredNewActive
  requiredNewOwner := followed.requiredNewOwner

omit [DecidableEq Key] in
theorem Plain.followed (plain : Plain accounts ops) :
    Followed accounts (getRequiredAuthorities ops) := by
  have step : ∀ (some : List (Operation Name Key Payload)) (requirements : Requirements Name Key),
      some ⊆ ops → Followed accounts requirements →
      Followed accounts (some.foldl requireOperation requirements) := by
    intro some
    induction some with
    | nil => exact fun _ _ followed => followed
    | cons op rest hypothesis =>
      intro requirements among followed
      have member : op ∈ ops := among List.mem_cons_self
      exact hypothesis _ (fun other inside => among (List.mem_cons_of_mem _ inside))
        (followed.operation (plain.active op member) (plain.owner op member)
          (plain.other op member))
  refine step ops .empty (List.Subset.refl _) ?_
  constructor
  · exact fun auth member => absurd member List.not_mem_nil
  · exact fun name member => absurd member List.not_mem_nil
  · exact fun name member => absurd member List.not_mem_nil
  · rfl
  · rfl
  · rfl

/-- The keys satisfy the requirements of the transaction, and each of them is asked for. -/
def Suffices (accounts : Name → Option (AuthorityPack Name Key))
    (ops : List (Operation Name Key Payload)) (keys : List Key) : Prop :=
  Met accounts keys (getRequiredAuthorities ops) ∧
    ∀ key ∈ keys, AskedBy accounts keys (getRequiredAuthorities ops) key

/-- What `verify_authority` says of a plain transaction. -/
theorem verifyAuthority_plain (plain : Plain accounts ops)
    (extracted : extractNewAccounts ops = .ok newAccounts) (keys : List Key) :
    Met accounts keys (getRequiredAuthorities ops) ∧
        (verifyAuthority accounts ops keys = .ok () ∧ Suffices accounts ops keys ∨
          verifyAuthority accounts ops keys = .error .irrelevantSig ∧
            ¬ Suffices accounts ops keys) ∨
      ¬ Met accounts keys (getRequiredAuthorities ops) ∧ ∃ thrown : AuthorityError Name,
        thrown.Missing ∧ verifyAuthority accounts ops keys = .error thrown := by
  have begun : SignState.Kept accounts keys []
      { providedSignatures := keys.map (fun key => (key, false)), approvedBy := [] } :=
    .start fun key => by simp
  rw [verifyAuthority, extracted]
  simp only [bind, Except.bind, collect_plain plain extracted]
  rcases checkRequirements_resolves newAccounts plain.followed begun with
    ⟨met, final, ran, moved⟩ | ⟨unmet, thrown, missing, failed⟩
  · left
    refine ⟨met, ?_⟩
    simp only [ran]
    have flagged : (∀ entry ∈ final.providedSignatures, entry.2 = true) ↔
        ∀ key ∈ keys, AskedBy accounts keys (getRequiredAuthorities ops) key := by
      have used (key : Key) (member : key ∈ keys) : key ∈ final.used ↔
          AskedBy accounts keys (getRequiredAuthorities ops) key := by
        rw [moved.used, start_used]
        simp [member]
      constructor
      · intro all key member
        rcases (moved.kept.signing key).mp member with provided | none
        · obtain ⟨entry, inside, rfl⟩ := List.mem_map.mp provided
          refine (used entry.1 member).mp ?_
          change (entry.1, true) ∈ final.providedSignatures
          rw [← all entry inside]
          exact inside
        · cases none
      · intro all entry inside
        have member : entry.1 ∈ keys :=
          (moved.kept.signing entry.1).mpr (.inl (List.mem_map_of_mem inside))
        exact moved.kept.marked entry inside ((used entry.1 member).mpr (all entry.1 member))
    rw [require]
    by_cases all : ∀ entry ∈ final.providedSignatures, entry.2 = true
    · exact .inl ⟨if_pos all, met, flagged.mp all⟩
    · exact .inr ⟨if_neg all, fun enough => all (flagged.mpr enough.2)⟩
  · right
    refine ⟨unmet, thrown, missing, ?_⟩
    simp only [failed]

theorem verifyAuthority_ok_iff (plain : Plain accounts ops)
    (extracted : extractNewAccounts ops = .ok newAccounts) (keys : List Key) :
    verifyAuthority accounts ops keys = .ok () ↔ Suffices accounts ops keys := by
  rcases verifyAuthority_plain plain extracted keys with
    ⟨-, ⟨verified, enough⟩ | ⟨failed, fails⟩⟩ | ⟨unmet, thrown, -, failed⟩
  · exact iff_of_true verified enough
  · rw [failed]
    exact iff_of_false (by simp) fails
  · rw [failed]
    exact iff_of_false (by simp) fun enough => unmet enough.1

/-- The candidates that the keys are narrowed down to suffice. -/
theorem getRequiredSignatures_suffice (plain : Plain accounts ops) {signatureKeys : List Key}
    (once : signatureKeys.Nodup) (own : signatureKeys ⊆ available)
    (met : Met accounts available (getRequiredAuthorities ops)) :
    ∃ required, getRequiredSignatures accounts ops signatureKeys available = .ok required ∧
      required.Sublist available ∧ Suffices accounts ops required := by
  have begun : SignState.Kept accounts available available
      { providedSignatures := signatureKeys.map (fun key => (key, false)), approvedBy := [] } :=
    .start fun key => ⟨.inr, fun signs => signs.elim (fun member => own member) id⟩
  obtain ⟨final, ran, moved⟩ := askRequirements_resolves plain.followed begun
  let required := available.filter (fun key =>
    key ∈ (final.providedSignatures.filter Prod.snd).map Prod.fst)
  have among : required.Sublist available := List.filter_sublist
  have chosen (key : Key) : key ∈ required ↔ key ∈ available ∧
      AskedBy accounts available (getRequiredAuthorities ops) key := by
    have used : key ∈ (final.providedSignatures.filter Prod.snd).map Prod.fst ↔
        key ∈ final.used := by
      change _ ↔ (key, true) ∈ final.providedSignatures
      simp [List.mem_filter]
    rw [List.mem_filter, decide_eq_true_eq, used, moved.used, start_used]
    simp
  refine ⟨required, ?_, among, ?_, ?_⟩
  · rw [getRequiredSignatures, require, if_pos once]
    simp only [bind, Except.bind, ran, liftAuthority, Except.mapError]
    rfl
  · constructor
    · intro auth member
      exact (met.other auth member).of_asked (plain.followed.other auth member)
        fun key inside asked => (chosen key).mpr ⟨inside, .inl ⟨auth, member, asked⟩⟩
    · intro name member
      exact approves_of_asked (plain.followed.active name member) (met.active name member)
        fun key inside asked => (chosen key).mpr ⟨inside, .inr (.inl ⟨name, member, asked⟩)⟩
    · intro name member
      obtain ⟨pack, known, nested⟩ := plain.followed.owner name member
      obtain ⟨other, same, derivable⟩ := met.owner name member
      rw [known, Option.some.injEq] at same
      subst same
      exact ⟨pack, known, derivable.of_asked nested fun key inside asked =>
        (chosen key).mpr ⟨inside, .inr (.inr ⟨name, member, pack, known, asked⟩)⟩⟩
  · intro key member
    exact ((chosen key).mp member).2.anti among.subset

/-- A key is left out when it is not missed, and then the others suffice. -/
theorem leaveOut_plain (plain : Plain accounts ops)
    (extracted : extractNewAccounts ops = .ok newAccounts) {result : List Key}
    (enough : Suffices accounts ops result) (key : Key) :
    leaveOut accounts ops result key = .ok (result.erase key) ∧
        Suffices accounts ops (result.erase key) ∨
      leaveOut accounts ops result key = .ok result ∧
        ¬ Met accounts (result.erase key) (getRequiredAuthorities ops) := by
  have fewer : result.erase key ⊆ result := List.erase_subset
  rw [leaveOut]
  rcases verifyAuthority_plain plain extracted (result.erase key) with
    ⟨met, ⟨verified, still⟩ | ⟨failed, fails⟩⟩ | ⟨unmet, thrown, missing, failed⟩
  · left
    rw [verified]
    exact ⟨rfl, still⟩
  · refine absurd ⟨met, fun other member => ?_⟩ fails
    exact (enough.2 other (fewer member)).anti fewer
  · right
    rw [failed]
    cases thrown with
    | unknownAccount name => exact missing.elim
    | notSupported => exact missing.elim
    | missingOtherAuth message => exact ⟨rfl, unmet⟩
    | missingActiveAuth name => exact ⟨rfl, unmet⟩
    | missingOwnerAuth name => exact ⟨rfl, unmet⟩
    | irrelevantSig => exact missing.elim

theorem mem_erase_of_subset {some all : List Key} (distinct : some.Nodup) (among : some ⊆ all)
    (key : Key) : some.erase key ⊆ all.erase key := by
  intro other member
  rw [distinct.mem_erase_iff] at member
  exact (List.mem_erase_of_ne member.1).mpr (among member.2)

/-- Of what is left at the end no candidate can be left out. -/
theorem leaveOuts_plain (plain : Plain accounts ops)
    (extracted : extractNewAccounts ops = .ok newAccounts) {candidates result : List Key}
    (distinct : result.Nodup) (enough : Suffices accounts ops result) :
    ∃ final, candidates.foldlM (leaveOut accounts ops) result = .ok final ∧
      final.Sublist result ∧ Suffices accounts ops final ∧
      ∀ key ∈ candidates, key ∈ final →
        ¬ Met accounts (final.erase key) (getRequiredAuthorities ops) := by
  induction candidates generalizing result with
  | nil => exact ⟨result, rfl, List.Sublist.refl _, enough, by simp⟩
  | cons key rest hypothesis =>
    rw [List.foldlM_cons]
    rcases leaveOut_plain plain extracted enough key with ⟨ran, still⟩ | ⟨ran, unmet⟩
    · obtain ⟨final, looped, among, last, minimal⟩ := hypothesis (distinct.erase key) still
      refine ⟨final, by rw [ran]; exact looped, among.trans List.erase_sublist, last, ?_⟩
      intro other member inside
      rcases List.mem_cons.mp member with rfl | behind
      · exact absurd (among.subset inside) distinct.not_mem_erase
      · exact minimal other behind inside
    · obtain ⟨final, looped, among, last, minimal⟩ := hypothesis distinct enough
      refine ⟨final, by rw [ran]; exact looped, among, last, ?_⟩
      intro other member inside
      rcases List.mem_cons.mp member with rfl | behind
      · exact fun met => unmet (met.mono
          (mem_erase_of_subset (distinct.sublist among) among.subset other))
      · exact minimal other behind inside

end Verification

namespace SmallTransaction

/-- An operation of type 7 that requires account 1. -/
def signedBySeven : Operation Nat Nat Unit :=
  { which := 7
    requiredActive := [1]
    requiredOwner := []
    requiredOther := []
    action := .other
    payload := () }

/-- Account 1 acts with its key and with account 3. -/
def joint : AuthorityPack Nat Nat :=
  { owner := keyAuthority 10
    active := { weightThreshold := 2, accountAuths := [(3, 1)], keyAuths := [(11, 1)] }
    activeOverrides := [] }

/-- Account 3 has two keys. -/
def partner : AuthorityPack Nat Nat :=
  { owner := keyAuthority 30, active := keyAuthority 31, activeOverrides := [] }

/-- The two accounts. -/
def partners : Nat → Option (AuthorityPack Nat Nat) :=
  Function.update (Function.update (fun _ => none) 1 (some joint)) 3 (some partner)

/-- An operation that requires the active authority of account 1 and the owner authority of
account 3. -/
def signedByBoth : Operation Nat Nat Unit :=
  { which := 5
    requiredActive := [1]
    requiredOwner := [3]
    requiredOther := []
    action := .other
    payload := () }

theorem keyAuthority_nested (depth key : Nat) : Nested partners depth (keyAuthority key) := by
  have fits : (keyAuthority key).Fits := FitsFrom.of_sum (by simp [keyAuthority, Authority.weights])
  cases depth with
  | zero => exact ⟨fits, rfl⟩
  | succ depth => exact ⟨fits, fun entry member => absurd member List.not_mem_nil⟩

theorem joint_nested : Nested partners maxSigCheckDepth joint.active := by
  refine ⟨FitsFrom.of_sum (by decide), fun entry member => ?_⟩
  rw [List.mem_singleton.mp member]
  exact ⟨partner, rfl, keyAuthority_nested 1 31, keyAuthority_nested 1 30⟩

theorem signedByBoth_plain : Plain partners [signedByBoth] where
  old := by
    intro op _ name _ creating among auths creates
    rw [List.mem_singleton.mp among] at creates
    cases creates
  unreplaced := by
    intro op member name required pack known
    rw [List.mem_singleton.mp member] at required
    rw [List.mem_singleton.mp required] at known
    cases known
    rfl
  active := by
    intro op member name required
    rw [List.mem_singleton.mp member] at required
    rw [List.mem_singleton.mp required]
    exact ⟨joint, rfl, joint_nested, keyAuthority_nested _ 10⟩
  owner := by
    intro op member name required
    rw [List.mem_singleton.mp member] at required
    rw [List.mem_singleton.mp required]
    exact ⟨partner, rfl, keyAuthority_nested _ 30⟩
  other := by
    intro op member auth required
    rw [List.mem_singleton.mp member] at required
    cases required

end SmallTransaction

end DeipChain.Protocol
