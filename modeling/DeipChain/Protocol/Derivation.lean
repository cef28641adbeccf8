import Mathlib
import DeipChain.Protocol.Authority

/-!
# The accounts that approve, and those the bounded check finds

With approvals given, the accounts that approve are the least fixed point of a rule: an
account approves when it is among the approvals, or when its active or owner authority has
enough weight behind it. `checkAuthority` accepts only authorities that have enough weight
behind them there (`checkAuthority_derivable`). Of what can be derived it finds whatever
needs no more levels of accounts than it follows, from any signing state that earlier checks
can leave (`checkAuthority_complete`), as long as no total of weights passes `2 ^ 32`. The
weights of `Fits` never do; those of any other authority do for some keys and approvals
(`exists_wrapped`).
-/
namespace DeipChain.Protocol

open Result

variable {Name Key : Type}

section Rule

variable (accounts : Name → Option (AuthorityPack Name Key)) (keys : List Key)
  (approvals : Set Name)

/-- An account approves when it is among the approvals or one of its authorities has enough
weight behind it. -/
def rule : Set Name →o Set Name where
  toFun approving := {name | name ∈ approvals ∨ ∃ pack, accounts name = some pack ∧
    (Enough keys approving pack.active ∨ Enough keys approving pack.owner)}
  monotone' := by
    rintro some more grows name (given | ⟨pack, known, active | owner⟩)
    · exact .inl given
    · exact .inr ⟨pack, known, .inl (active.mono grows)⟩
    · exact .inr ⟨pack, known, .inr (owner.mono grows)⟩

/-- The accounts that approve. -/
def approvers : Set Name := (rule accounts keys approvals).lfp

/-- The accounts that approve with at most so many levels of accounts below the approvals. -/
def approversWithin : Nat → Set Name
  | 0 => approvals
  | depth + 1 => rule accounts keys approvals (approversWithin depth)

/-- The authority is satisfied. -/
def Derivable (auth : Authority Name Key) : Prop :=
  Enough keys (approvers accounts keys approvals) auth

/-- The authority is satisfied with accounts nested at most so deep. -/
def DerivableWithin (depth : Nat) (auth : Authority Name Key) : Prop :=
  Enough keys (approversWithin accounts keys approvals depth) auth

theorem mem_rule {approving : Set Name} {name : Name} :
    name ∈ rule accounts keys approvals approving ↔
      name ∈ approvals ∨ ∃ pack, accounts name = some pack ∧
        (Enough keys approving pack.active ∨ Enough keys approving pack.owner) :=
  Iff.rfl

theorem rule_approvers :
    rule accounts keys approvals (approvers accounts keys approvals) =
      approvers accounts keys approvals :=
  (rule accounts keys approvals).map_lfp

theorem approvals_subset_approvers : approvals ⊆ approvers accounts keys approvals := by
  intro name given
  rw [← rule_approvers]
  exact .inl given

theorem closedUnder_approvers : ClosedUnder accounts keys (approvers accounts keys approvals) := by
  intro name pack known enough
  rw [← rule_approvers]
  exact .inr ⟨pack, known, enough⟩

theorem approversWithin_subset (depth : Nat) :
    approversWithin accounts keys approvals depth ⊆ approvers accounts keys approvals := by
  induction depth with
  | zero => exact approvals_subset_approvers accounts keys approvals
  | succ depth inductionHypothesis =>
    rw [← rule_approvers]
    exact (rule accounts keys approvals).monotone inductionHypothesis

theorem approvals_subset_within (depth : Nat) :
    approvals ⊆ approversWithin accounts keys approvals depth := by
  cases depth with
  | zero => exact Set.Subset.refl _
  | succ depth => exact fun name given => .inl given

variable {accounts keys approvals}

theorem DerivableWithin.derivable {depth : Nat} {auth : Authority Name Key}
    (within : DerivableWithin accounts keys approvals depth auth) :
    Derivable accounts keys approvals auth :=
  within.mono (approversWithin_subset accounts keys approvals depth)

/-- More approvals, more accounts that approve. -/
theorem approversWithin_mono {more : Set Name} (grows : approvals ⊆ more) (depth : Nat) :
    approversWithin accounts keys approvals depth ⊆ approversWithin accounts keys more depth := by
  induction depth with
  | zero => exact grows
  | succ depth inductionHypothesis =>
    rintro name (given | ⟨pack, known, active | owner⟩)
    · exact .inl (grows given)
    · exact .inr ⟨pack, known, .inl (active.mono inductionHypothesis)⟩
    · exact .inr ⟨pack, known, .inr (owner.mono inductionHypothesis)⟩

theorem DerivableWithin.mono {more : Set Name} {depth : Nat} {auth : Authority Name Key}
    (within : DerivableWithin accounts keys approvals depth auth) (grows : approvals ⊆ more) :
    DerivableWithin accounts keys more depth auth :=
  Enough.mono within (approversWithin_mono grows depth)

mutual

theorem Satisfied.derivable {auth : Authority Name Key} :
    Satisfied accounts keys auth → Derivable accounts keys ∅ auth
  | .intro auth signing approving ownKeys signed ownNames approved enough => by
    have keyWeight : (signing.map Prod.snd).sum ≤ weightOf auth.keyAuths {key | key ∈ keys} :=
      sum_le_weightOf ownKeys signed
    have accountWeight := sum_le_weightOf ownNames
      (fun entry member => (approved entry member).mem_approvers)
    exact enough.trans (Nat.add_le_add keyWeight accountWeight)

theorem Approves.mem_approvers {name : Name} :
    Approves accounts keys name → name ∈ approvers accounts keys ∅
  | .active name pack known satisfied =>
    closedUnder_approvers accounts keys ∅ name pack known (.inl satisfied.derivable)
  | .owner name pack known satisfied =>
    closedUnder_approvers accounts keys ∅ name pack known (.inr satisfied.derivable)

end

/-- With no approvals given, these are the accounts that approve by themselves. -/
theorem approvers_empty :
    approvers accounts keys ∅ = {name | Approves accounts keys name} := by
  apply Set.Subset.antisymm
  · apply (rule accounts keys ∅).lfp_le
    rintro name (given | ⟨pack, known, enough⟩)
    · exact given.elim
    · exact closedUnder_approves name pack known enough
  · exact fun name approves => approves.mem_approvers

end Rule

section Fits

/-- No total that is still below the threshold passes `2 ^ 32` with the next weight,
whichever of the weights are counted. -/
def FitsFrom (threshold total : Nat) (weights : List Nat) : Prop :=
  ∀ counted weight, (counted ++ [weight]).Sublist weights →
    total + counted.sum < threshold → total + counted.sum + weight < 2 ^ 32

/-- The weights in the order in which they are counted. -/
def Authority.weights (auth : Authority Name Key) : List Nat :=
  auth.keyAuths.map Prod.snd ++ auth.accountAuths.map Prod.snd

/-- No total of the authority wraps. -/
def Authority.Fits (auth : Authority Name Key) : Prop :=
  FitsFrom auth.weightThreshold 0 auth.weights

variable {threshold total weight : Nat} {weights : List Nat}

theorem FitsFrom.skip (fits : FitsFrom threshold total (weight :: weights)) :
    FitsFrom threshold total weights :=
  fun counted last among => fits counted last (among.cons _)

theorem FitsFrom.next (fits : FitsFrom threshold total (weight :: weights))
    (low : total < threshold) : total + weight < 2 ^ 32 := by
  simpa using fits [] weight (by simp) (by simpa using low)

theorem FitsFrom.count (fits : FitsFrom threshold total (weight :: weights)) :
    FitsFrom threshold (total + weight) weights := by
  intro counted last among low
  have bound := fits (weight :: counted) last (among.cons_cons _)
    (by simpa only [List.sum_cons, Nat.add_assoc] using low)
  rw [List.sum_cons] at bound
  omega

/-- Weights that total less than `2 ^ 32` fit. -/
theorem FitsFrom.of_sum (small : total + weights.sum < 2 ^ 32) :
    FitsFrom threshold total weights := by
  intro counted last among _
  have bound := among.sum_le_sum (fun weight _ => Nat.zero_le weight)
  rw [List.sum_append, List.sum_singleton] at bound
  omega

/-- A threshold that leaves room for each weight fits. -/
theorem FitsFrom.of_threshold (small : ∀ weight ∈ weights, threshold + weight ≤ 2 ^ 32) :
    FitsFrom threshold total weights := by
  intro counted last among low
  have room := small last (among.subset (by simp))
  omega

end Fits

section Complete

/-- The authorities of every account are among the authorities in question. -/
def Stored (accounts : Name → Option (AuthorityPack Name Key))
    (authorities : Set (Authority Name Key)) : Prop :=
  ∀ name pack, accounts name = some pack →
    pack.active ∈ authorities ∧ pack.owner ∈ authorities ∧
      ∀ entry ∈ pack.activeOverrides, entry.2 ∈ authorities

/-- One of the authorities names an account that does not exist. -/
def Dangling (accounts : Name → Option (AuthorityPack Name Key))
    (authorities : Set (Authority Name Key)) (name : Name) : Prop :=
  accounts name = none ∧ ∃ auth ∈ authorities, name ∈ auth.accountAuths.map Prod.fst

/-- What earlier checks of a transaction can leave in the signing state. -/
def SignState.Reached (accounts : Name → Option (AuthorityPack Name Key)) (keys : List Key)
    (approvals : Set Name) (state : SignState Name Key) : Prop :=
  state.Within keys keys approvals (approvers accounts keys approvals)

/-- The answer is yes where the property holds, unless an unknown account is looked up. -/
def Answers (accounts : Name → Option (AuthorityPack Name Key))
    (authorities : Set (Authority Name Key)) (property : Prop)
    (result : Except (AuthorityError Name) (Bool × SignState Name Key)) : Prop :=
  (∃ passed next, result = .ok (passed, next) ∧ (property → passed = true)) ∨
    ∃ name, Dangling accounts authorities name ∧ result = .error (.unknownAccount name)

/-- A check that passes only what is allowed, and whatever is required to pass, from every
state that can be reached. -/
def Decides (accounts : Name → Option (AuthorityPack Name Key))
    (authorities : Set (Authority Name Key)) (keys : List Key) (approvals : Set Name)
    (allowed required : Prop) (check : Check Name Key) : Prop :=
  StaysWithin keys keys approvals (approvers accounts keys approvals) allowed check ∧
    ∀ state, state.Reached accounts keys approvals →
      Answers accounts authorities required (check state)

variable {accounts : Name → Option (AuthorityPack Name Key)}
  {authorities : Set (Authority Name Key)} {keys : List Key} {approvals : Set Name}
  {allowed required : Prop}

theorem Answers.imp {stronger : Prop}
    {result : Except (AuthorityError Name) (Bool × SignState Name Key)}
    (answers : Answers accounts authorities required result) (implies : stronger → required) :
    Answers accounts authorities stronger result := by
  rcases answers with ⟨passed, next, ran, means⟩ | unknown
  · exact .inl ⟨passed, next, ran, fun holds => means (implies holds)⟩
  · exact .inr unknown

theorem Decides.imp {wider stronger : Prop} {check : Check Name Key}
    (decides : Decides accounts authorities keys approvals allowed required check)
    (widens : allowed → wider) (implies : stronger → required) :
    Decides accounts authorities keys approvals wider stronger check :=
  ⟨decides.1.imp widens, fun state reached => (decides.2 state reached).imp implies⟩

theorem either_decides {other : Prop} {first second : Check Name Key}
    (one : Decides accounts authorities keys approvals allowed required first)
    (two : Decides accounts authorities keys approvals allowed other second) :
    Decides accounts authorities keys approvals allowed (required ∨ other)
      (either first second) := by
  refine ⟨either_within one.1 two.1, fun state reached => ?_⟩
  rcases one.2 state reached with ⟨passed, middle, asked, means⟩ | ⟨name, dangling, threw⟩
  · have kept := (one.1 state passed middle reached asked).1
    cases passed with
    | true => exact .inl ⟨true, middle, by rw [either, asked]; rfl, fun _ => rfl⟩
    | false =>
      have later : either first second state = second middle := by
        rw [either, asked]
        rfl
      rw [later]
      refine (two.2 middle kept).imp ?_
      rintro (holds | holds)
      · cases means holds
      · exact holds
  · exact .inr ⟨name, dangling, by rw [either, threw]; rfl⟩

/-- A check of one of the authorities of an account that some authority names. -/
theorem pack_decides {property : AuthorityPack Name Key → Prop} {name : Name}
    {check : AuthorityPack Name Key → Check Name Key}
    (listed : ∃ auth ∈ authorities, name ∈ auth.accountAuths.map Prod.fst)
    (each : ∀ pack, accounts name = some pack →
      Decides accounts authorities keys approvals allowed (property pack) (check pack)) :
    Decides accounts authorities keys approvals allowed
      (∃ pack, accounts name = some pack ∧ property pack)
      (fun state => do check (← getPack accounts name) state) := by
  refine ⟨pack_within (fun pack known => (each pack known).1), fun state reached => ?_⟩
  cases found : accounts name with
  | none =>
    refine .inr ⟨name, ⟨found, listed⟩, ?_⟩
    simp only [getPack, found, expect]
    rfl
  | some pack =>
    have looked : getPack accounts name = .ok pack := by
      simp only [getPack, found, expect]
    simp only [looked]
    refine ((each pack found).2 state reached).imp ?_
    rintro ⟨other, known, holds⟩
    cases known
    exact holds

variable [DecidableEq Key] {state next : SignState Name Key}

/-- A loop over the keys that does not reach the threshold has counted every signing key. -/
theorem checkKeys_complete {threshold total final : Nat} {entries : List (Key × Nat)}
    {more : List Nat} (reached : state.Reached accounts keys approvals)
    (fits : FitsFrom threshold total (entries.map Prod.snd ++ more))
    (low : total < threshold ∨ threshold = 0)
    (ran : checkKeys threshold entries total state = (false, final, next)) :
    next.Reached accounts keys approvals ∧
      total + weightOf entries {key | key ∈ keys} ≤ final ∧ FitsFrom threshold final more ∧
        (final < threshold ∨ threshold = 0) := by
  induction entries generalizing total state with
  | nil =>
    simp only [checkKeys, Prod.mk.injEq, true_and] at ran
    obtain ⟨rfl, rfl⟩ := ran
    exact ⟨reached, by simp, fits, low⟩
  | cons entry rest inductionHypothesis =>
    obtain ⟨key, weight⟩ := entry
    simp only [checkKeys] at ran
    split at ran
    · rename_i after asked
      have kept := (signedBy_within reached asked).1
      have outside : key ∉ {key | key ∈ keys} := by
        intro inside
        rw [signedBy, if_pos (reached.knows key inside)] at asked
        cases asked
      rw [weightOf_cons_of_not_mem outside]
      exact inductionHypothesis kept fits.skip low ran
    · rename_i after asked
      obtain ⟨kept, own⟩ := signedBy_within reached asked
      split at ran
      · cases ran
      · rename_i short
        have below : total < threshold := by
          rcases low with low | zero
          · exact low
          · omega
        have whole : addWeight total weight = total + weight := Nat.mod_eq_of_lt (fits.next below)
        rw [whole] at ran short
        obtain ⟨last, counted, left, lower⟩ :=
          inductionHypothesis kept fits.count (.inl (by omega)) ran
        have inside : key ∈ {key | key ∈ keys} := own rfl
        rw [weightOf_cons_of_mem inside]
        exact ⟨last, by omega, left, lower⟩

variable [DecidableEq Name]

omit [DecidableEq Key] in
/-- The loop over the accounts passes when the accounts within reach have enough weight. -/
theorem checkAccounts_complete {within : Set Name} {approves : Name → Check Name Key}
    {entries : List (Name × Nat)}
    (each : ∀ name ∈ entries.map Prod.fst, Decides accounts authorities keys approvals
      (name ∈ approvers accounts keys approvals) (name ∈ within \ approvals) (approves name))
    {threshold total : Nat} (reached : state.Reached accounts keys approvals)
    (fits : FitsFrom threshold total (entries.map Prod.snd))
    (low : total < threshold ∨ threshold = 0) :
    Answers accounts authorities (threshold ≤ total + weightOf entries within)
      (checkAccounts approves threshold entries total state) := by
  induction entries generalizing total state with
  | nil =>
    rw [checkAccounts]
    exact .inl ⟨_, _, rfl, by simp⟩
  | cons entry rest inductionHypothesis =>
    obtain ⟨name, weight⟩ := entry
    obtain ⟨own, others⟩ := List.forall_mem_cons.mp each
    -- an account that approves is counted, and its weight does not wrap
    have added : ∀ {middle : SignState Name Key}, middle.Reached accounts keys approvals →
        Answers accounts authorities (threshold ≤ total + weightOf ((name, weight) :: rest) within)
          (if addWeight total weight ≥ threshold then .ok (true, middle)
            else checkAccounts approves threshold rest (addWeight total weight) middle) := by
      intro middle kept
      split
      · exact .inl ⟨true, middle, rfl, fun _ => rfl⟩
      · rename_i short
        have below : total < threshold := by
          rcases low with low | zero
          · exact low
          · omega
        have whole : addWeight total weight = total + weight := Nat.mod_eq_of_lt (fits.next below)
        rw [whole] at short ⊢
        refine (inductionHypothesis others kept fits.count (.inl (by omega))).imp
          (fun enough => enough.trans ?_)
        by_cases inside : name ∈ within
        · rw [weightOf_cons_of_mem inside]
          omega
        · rw [weightOf_cons_of_not_mem inside]
          omega
    rw [checkAccounts]
    split
    · exact added reached
    · rename_i unknown
      rcases own.2 state reached with ⟨approved, after, asked, means⟩ | ⟨other, dangling, threw⟩
      · obtain ⟨kept, allowed⟩ := own.1 state approved after reached asked
        rw [asked]
        cases approved with
        | true => exact added (kept.remember (allowed rfl))
        | false =>
          have outside : name ∉ within := by
            intro inside
            have given : name ∉ approvals := fun given => unknown (reached.given name given)
            cases means ⟨inside, given⟩
          rw [weightOf_cons_of_not_mem outside]
          exact inductionHypothesis others kept fits.skip low
      · rw [threw]
        exact .inr ⟨other, dangling, rfl⟩

theorem checkAuthorityWith_complete {depth : Nat} {approves : Name → Check Name Key}
    {auth : Authority Name Key}
    (each : ∀ name ∈ auth.accountAuths.map Prod.fst, Decides accounts authorities keys approvals
      (name ∈ approvers accounts keys approvals)
      (name ∈ approversWithin accounts keys approvals depth \ approvals) (approves name))
    (fits : auth.Fits) (reached : state.Reached accounts keys approvals) :
    Answers accounts authorities (DerivableWithin accounts keys approvals depth auth)
      (checkAuthorityWith approves auth state) := by
  rw [checkAuthorityWith]
  split
  · exact .inl ⟨true, _, rfl, fun _ => rfl⟩
  · rename_i total next counted
    have low : 0 < auth.weightThreshold ∨ auth.weightThreshold = 0 := by omega
    obtain ⟨kept, keyWeight, left, lower⟩ := checkKeys_complete reached fits low counted
    refine (checkAccounts_complete each kept left lower).imp (fun enough => ?_)
    rw [DerivableWithin, Enough] at enough
    omega

/-- An accepted authority is derivable. -/
theorem checkAuthority_derivable (depth : Nat) (auth : Authority Name Key) :
    StaysWithin keys keys approvals (approvers accounts keys approvals)
      (Derivable accounts keys approvals auth) (checkAuthority accounts depth auth) :=
  checkAuthority_within (closedUnder_approvers accounts keys approvals) depth auth

/-- An authority that is derivable with accounts nested as deep as the check follows them is
accepted, whatever earlier checks have remembered.

Proof: induction over the depth that is left. An account within reach was given, and is
remembered, or one of its own authorities is within reach one level deeper. -/
theorem checkAuthority_complete (stored : Stored accounts authorities)
    (fits : ∀ auth ∈ authorities, auth.Fits) (depth : Nat) {auth : Authority Name Key}
    (member : auth ∈ authorities) :
    Decides accounts authorities keys approvals (Derivable accounts keys approvals auth)
      (DerivableWithin accounts keys approvals depth auth) (checkAuthority accounts depth auth) := by
  refine ⟨checkAuthority_derivable depth auth, ?_⟩
  induction depth generalizing auth with
  | zero =>
    intro state reached
    refine checkAuthorityWith_complete (fun name _ => ⟨?_, ?_⟩) (fits auth member) reached
    · intro before passed next sound ran
      simp only [Except.ok.injEq, Prod.mk.injEq] at ran
      obtain ⟨rfl, rfl⟩ := ran
      exact ⟨sound, by simp⟩
    · intro before _
      refine .inl ⟨false, before, rfl, ?_⟩
      rintro ⟨inside, outside⟩
      exact absurd inside outside
  | succ depth inductionHypothesis =>
    intro state reached
    refine checkAuthorityWith_complete (fun name listed => ?_) (fits auth member) reached
    have named : ∃ auth ∈ authorities, name ∈ auth.accountAuths.map Prod.fst :=
      ⟨auth, member, listed⟩
    have closed := closedUnder_approvers accounts keys approvals name
    have active : ∀ pack, accounts name = some pack → Decides accounts authorities keys approvals
        (name ∈ approvers accounts keys approvals)
        (DerivableWithin accounts keys approvals depth pack.active)
        (checkAuthority accounts depth pack.active) :=
      fun pack known => ⟨(checkAuthority_derivable depth pack.active).imp
        (fun derived => closed pack known (.inl derived)),
        inductionHypothesis (stored name pack known).1⟩
    have owner : ∀ pack, accounts name = some pack → Decides accounts authorities keys approvals
        (name ∈ approvers accounts keys approvals)
        (DerivableWithin accounts keys approvals depth pack.owner)
        (checkAuthority accounts depth pack.owner) :=
      fun pack known => ⟨(checkAuthority_derivable depth pack.owner).imp
        (fun derived => closed pack known (.inr derived)),
        inductionHypothesis (stored name pack known).2.1⟩
    refine (either_decides (pack_decides named active) (pack_decides named owner)).imp id ?_
    rintro ⟨given | ⟨pack, known, satisfied | satisfied⟩, outside⟩
    · exact absurd given outside
    · exact .inl ⟨pack, known, satisfied⟩
    · exact .inr ⟨pack, known, satisfied⟩

end Complete

section Wrapped

/-- The weights added up in their order, until the threshold is reached. -/
def tally (threshold : Nat) : List Nat → Nat → Bool × Nat
  | [], total => (false, total)
  | weight :: rest, total =>
    if addWeight total weight ≥ threshold then (true, addWeight total weight)
    else tally threshold rest (addWeight total weight)

variable {threshold total final : Nat}

theorem tally_append {first second : List Nat}
    (short : tally threshold (first ++ second) total = (false, final)) :
    ∃ middle, tally threshold first total = (false, middle) ∧
      tally threshold second middle = (false, final) := by
  induction first generalizing total with
  | nil => exact ⟨total, rfl, short⟩
  | cons weight rest inductionHypothesis =>
    rw [List.cons_append, tally] at short
    split at short
    · cases short
    · rename_i below
      rw [tally, if_neg below]
      exact inductionHypothesis short

/-- The last weight takes a total below the threshold past `2 ^ 32`. -/
theorem tally_wraps {counted : List Nat} {weight : Nat} (bounded : threshold < 2 ^ 32)
    (small : weight < 2 ^ 16) (low : total + counted.sum < threshold)
    (wraps : 2 ^ 32 ≤ total + counted.sum + weight) :
    ∃ final, tally threshold (counted ++ [weight]) total = (false, final) ∧ final < threshold := by
  induction counted generalizing total with
  | nil =>
    rw [List.sum_nil] at low wraps
    have wrapped : addWeight total weight < threshold := by
      unfold addWeight
      omega
    refine ⟨addWeight total weight, ?_, wrapped⟩
    rw [List.nil_append, tally, if_neg (by omega)]
    rfl
  | cons first rest inductionHypothesis =>
    rw [List.sum_cons] at low wraps
    have whole : addWeight total first = total + first := Nat.mod_eq_of_lt (by omega)
    rw [List.cons_append, tally, whole, if_neg (by omega)]
    exact inductionHypothesis (by omega) (by omega)

variable [DecidableEq Name] [DecidableEq Key]

/-- The entries whose name is in the list, and the weights of them. -/
def weightsOf {A : Type} [DecidableEq A] (chosen : List A) (entries : List (A × Nat)) : List Nat :=
  (entries.filter (fun entry => entry.1 ∈ chosen)).map Prod.snd

omit [DecidableEq Name] in
theorem checkKeys_tally {signing : List Key} {entries : List (Key × Nat)}
    {state : SignState Name Key} (provided : state.providedSignatures.map Prod.fst = signing)
    (short : tally threshold (weightsOf signing entries) total = (false, final)) :
    ∃ next, checkKeys threshold entries total state = (false, final, next) ∧
      next.approvedBy = state.approvedBy := by
  induction entries generalizing total state with
  | nil =>
    obtain ⟨-, rfl⟩ := Prod.mk.inj short
    exact ⟨state, rfl, rfl⟩
  | cons entry rest inductionHypothesis =>
    obtain ⟨key, weight⟩ := entry
    by_cases inside : key ∈ signing
    · rw [weightsOf, List.filter_cons_of_pos (by simpa using inside), List.map_cons, tally] at short
      split at short
      · cases short
      · rename_i below
        have marked : (state.providedSignatures.map
            (fun entry => (entry.1, entry.2 || entry.1 = key))).map Prod.fst = signing := by
          rw [List.map_map, ← provided]
          rfl
        obtain ⟨next, ran, same⟩ := inductionHypothesis
          (show (SignState.mk _ state.approvedBy).providedSignatures.map Prod.fst = signing
            from marked) short
        refine ⟨next, ?_, same⟩
        rw [checkKeys, signedBy, if_pos (provided ▸ inside)]
        simp only [if_neg below]
        exact ran
    · rw [weightsOf, List.filter_cons_of_neg (by simpa using inside)] at short
      obtain ⟨next, ran, same⟩ := inductionHypothesis provided short
      refine ⟨next, ?_, same⟩
      rw [checkKeys, signedBy, if_neg (provided ▸ inside)]
      exact ran

omit [DecidableEq Key] in
/-- At the greatest depth only the accounts that are remembered count. -/
theorem checkAccounts_tally {entries : List (Name × Nat)} {state : SignState Name Key}
    (short : tally threshold (weightsOf state.approvedBy entries) total = (false, final)) :
    checkAccounts (fun _ state => .ok (false, state)) threshold entries total state =
      .ok (decide (final ≥ threshold), state) := by
  induction entries generalizing total with
  | nil =>
    obtain ⟨-, rfl⟩ := Prod.mk.inj short
    rfl
  | cons entry rest inductionHypothesis =>
    obtain ⟨name, weight⟩ := entry
    by_cases inside : name ∈ state.approvedBy
    · rw [weightsOf, List.filter_cons_of_pos (by simpa using inside), List.map_cons, tally] at short
      split at short
      · cases short
      · rename_i below
        rw [checkAccounts, if_pos inside, if_neg below]
        exact inductionHypothesis short
    · rw [weightsOf, List.filter_cons_of_neg (by simpa using inside)] at short
      rw [checkAccounts, if_neg inside]
      exact inductionHypothesis short

omit [DecidableEq Name] [DecidableEq Key] in
/-- In a map, the names of some entries choose these entries. -/
theorem weightsOf_sublist {A : Type} [DecidableEq A] {some entries : List (A × Nat)}
    (among : some.Sublist entries) (distinct : (entries.map Prod.fst).Nodup) :
    weightsOf (some.map Prod.fst) entries = some.map Prod.snd := by
  induction among with
  | slnil => rfl
  | @cons some entries entry among inductionHypothesis =>
    obtain ⟨apart, rest⟩ := List.nodup_cons.mp distinct
    have outside : entry.1 ∉ some.map Prod.fst :=
      fun inside => apart ((among.map Prod.fst).subset inside)
    rw [weightsOf, List.filter_cons_of_neg (by simpa using outside)]
    exact inductionHypothesis rest
  | @cons_cons some entries entry among inductionHypothesis =>
    obtain ⟨apart, rest⟩ := List.nodup_cons.mp distinct
    have others : entries.filter (fun other => other.1 ∈ (entry :: some).map Prod.fst) =
        entries.filter (fun other => other.1 ∈ some.map Prod.fst) := by
      apply List.filter_congr
      intro other member
      have different : other.1 ≠ entry.1 :=
        fun same => apart (same ▸ List.mem_map_of_mem member)
      simp only [List.map_cons, List.mem_cons, different, false_or]
    rw [weightsOf, List.filter_cons_of_pos (by simp), List.map_cons, others]
    exact congrArg (entry.2 :: ·) (inductionHypothesis rest)

/-- The signing state at the start of `verify_authority`. -/
def SignState.start (keys : List Key) (approvals : List Name) : SignState Name Key where
  providedSignatures := keys.map (fun key => (key, false))
  approvedBy := approvals

omit [DecidableEq Name] [DecidableEq Key] in
theorem SignState.start_reached (accounts : Name → Option (AuthorityPack Name Key))
    (keys : List Key) (approvals : List Name) :
    (SignState.start keys approvals).Reached accounts keys {name | name ∈ approvals} where
  provided entry member := by
    obtain ⟨key, signing, rfl⟩ := List.mem_map.mp member
    exact signing
  knows key signing := by simpa [SignState.start] using signing
  given name inside := inside
  remembered name inside := approvals_subset_approvers accounts keys _ inside

/-- The fields of an authority are in the ranges of their types, and its entries are two
maps. -/
structure Authority.WellFormed (auth : Authority Name Key) : Prop where
  threshold : auth.weightThreshold < 2 ^ 32
  weights : ∀ weight ∈ auth.weights, weight < 2 ^ 16
  keys : (auth.keyAuths.map Prod.fst).Nodup
  accounts : (auth.accountAuths.map Prod.fst).Nodup

/-- Where a total can wrap, some keys and approvals satisfy the authority and are refused. -/
theorem exists_wrapped (accounts : Name → Option (AuthorityPack Name Key))
    {auth : Authority Name Key} (wellFormed : auth.WellFormed) {counted : List Nat} {weight : Nat}
    (among : (counted ++ [weight]).Sublist auth.weights) (low : counted.sum < auth.weightThreshold)
    (wraps : 2 ^ 32 ≤ counted.sum + weight) :
    ∃ keys approvals, DerivableWithin accounts keys {name | name ∈ approvals} 0 auth ∧
      ∃ next, checkAuthority accounts 0 auth (.start keys approvals) = .ok (false, next) := by
  have small := wellFormed.weights weight (among.subset (by simp))
  obtain ⟨final, short, below⟩ := tally_wraps wellFormed.threshold small
    (show 0 + counted.sum < auth.weightThreshold by omega)
    (show 2 ^ 32 ≤ 0 + counted.sum + weight by omega)
  obtain ⟨first, second, split, ofKeys, ofAccounts⟩ := List.sublist_append_iff.mp among
  obtain ⟨signing, ownKeys, rfl⟩ := List.sublist_map_iff.mp ofKeys
  obtain ⟨approving, ownNames, rfl⟩ := List.sublist_map_iff.mp ofAccounts
  refine ⟨signing.map Prod.fst, approving.map Prod.fst, ?_, ?_⟩
  · have keyWeight : (signing.map Prod.snd).sum ≤
        weightOf auth.keyAuths {key | key ∈ signing.map Prod.fst} :=
      sum_le_weightOf ownKeys (fun entry member => List.mem_map_of_mem member)
    have accountWeight : (approving.map Prod.snd).sum ≤
        weightOf auth.accountAuths {name | name ∈ approving.map Prod.fst} :=
      sum_le_weightOf ownNames (fun entry member => List.mem_map_of_mem member)
    have total : counted.sum + weight =
        (signing.map Prod.snd).sum + (approving.map Prod.snd).sum := by
      rw [← List.sum_append, ← split, List.sum_append, List.sum_singleton]
    have bounded := wellFormed.threshold
    rw [DerivableWithin, Enough, approversWithin]
    omega
  · rw [split] at short
    obtain ⟨middle, atKeys, atAccounts⟩ := tally_append short
    have keyTally : tally auth.weightThreshold (weightsOf (signing.map Prod.fst) auth.keyAuths) 0 =
        (false, middle) := by
      rw [weightsOf_sublist ownKeys wellFormed.keys]
      exact atKeys
    obtain ⟨next, counted, same⟩ := checkKeys_tally
      (show (SignState.start (signing.map Prod.fst) (approving.map Prod.fst)).providedSignatures.map
        Prod.fst = signing.map Prod.fst by simp [SignState.start]) keyTally
    have accountTally : tally auth.weightThreshold (weightsOf next.approvedBy auth.accountAuths)
        middle = (false, final) := by
      rw [same]
      exact (congrArg (tally _ · middle) (weightsOf_sublist ownNames wellFormed.accounts)).trans
        atAccounts
    refine ⟨next, ?_⟩
    rw [checkAuthority, checkAuthorityWith, counted]
    simp only [checkAccounts_tally accountTally, ge_iff_le, decide_eq_false (Nat.not_le.mpr below)]

end Wrapped

/-!
## An authority whose keys outweigh the counter

The names and the keys are numbers.
-/

namespace ManyKeys

/-- One key of weight one and `2 ^ 16 + 1` keys of the greatest weight, which total
`2 ^ 32`. -/
def keyAuths : List (Nat × Nat) :=
  (0, 1) :: (List.range 65537).map (fun key => (key + 1, 65535))

/-- An authority that needs nearly all of them. -/
def authority : Authority Nat Nat :=
  { weightThreshold := 2 ^ 32 - 1, accountAuths := [], keyAuths := keyAuths }

theorem keyAuths_weights :
    keyAuths.map Prod.snd = (1 :: List.replicate 65536 65535) ++ [65535] := by
  have same : (List.range 65537).map (fun key => ((key + 1, 65535) : Nat × Nat).2) =
      List.replicate 65537 65535 := by
    rw [List.map_const', List.length_range]
  rw [keyAuths, List.map_cons, List.map_map, Function.comp_def, same, List.replicate_succ',
    List.cons_append]

theorem keyAuths_distinct : (keyAuths.map Prod.fst).Nodup := by
  rw [keyAuths, List.map_cons, List.map_map, List.nodup_cons]
  constructor
  · simp
  · exact List.Nodup.map (fun _ _ same => Nat.succ.inj same) List.nodup_range

theorem authority_wellFormed : authority.WellFormed := by
  refine ⟨by decide, ?_, keyAuths_distinct, List.nodup_nil⟩
  intro weight member
  rw [Authority.weights, authority, List.map_nil, List.append_nil, keyAuths_weights] at member
  rcases List.mem_append.mp member with first | last
  · rcases List.mem_cons.mp first with rfl | repeated
    · decide
    · rw [List.eq_of_mem_replicate repeated]
      decide
  · rw [List.mem_singleton.mp last]
    decide

/-- With every key signing, the authority is satisfied and refused. -/
theorem authority_refused :
    authority.WellFormed ∧
      DerivableWithin (fun _ => none) (keyAuths.map Prod.fst) ∅ maxSigCheckDepth authority ∧
      ∃ next, checkAuthority (fun _ => none) maxSigCheckDepth authority
        (.start (keyAuths.map Prod.fst) []) = .ok (false, next) := by
  have total : (1 :: List.replicate 65536 65535).sum = 4294901761 := by
    rw [List.sum_cons, List.sum_replicate]
    rfl
  refine ⟨authority_wellFormed, ?_, ?_⟩
  · have counted : (keyAuths.map Prod.snd).sum ≤
        weightOf keyAuths {key | key ∈ keyAuths.map Prod.fst} :=
      sum_le_weightOf (List.Sublist.refl _) (fun entry member => List.mem_map_of_mem member)
    rw [keyAuths_weights, List.sum_append, total, List.sum_singleton] at counted
    rw [DerivableWithin, Enough]
    change 2 ^ 32 - 1 ≤ weightOf keyAuths {key | key ∈ keyAuths.map Prod.fst} + 0
    omega
  · obtain ⟨final, short, below⟩ := tally_wraps (show 2 ^ 32 - 1 < 2 ^ 32 by decide)
      (show 65535 < 2 ^ 16 by decide)
      (show 0 + (1 :: List.replicate 65536 65535).sum < 2 ^ 32 - 1 by omega)
      (show 2 ^ 32 ≤ 0 + (1 :: List.replicate 65536 65535).sum + 65535 by omega)
    have keyTally : tally authority.weightThreshold
        (weightsOf (keyAuths.map Prod.fst) authority.keyAuths) 0 = (false, final) := by
      simp only [authority]
      rw [weightsOf_sublist (List.Sublist.refl _) keyAuths_distinct, keyAuths_weights]
      exact short
    obtain ⟨next, counted, _⟩ := checkKeys_tally
      (show (SignState.start (keyAuths.map Prod.fst) ([] : List Nat)).providedSignatures.map
        Prod.fst = keyAuths.map Prod.fst by simp [SignState.start]) keyTally
    have refused : ∀ approves : Nat → Check Nat Nat, checkAuthorityWith approves authority
        (.start (keyAuths.map Prod.fst) []) = .ok (false, next) := by
      intro approves
      rw [checkAuthorityWith, counted]
      simp only [authority, checkAccounts, ge_iff_le, decide_eq_false (Nat.not_le.mpr below)]
    exact ⟨next, refused _⟩

end ManyKeys

end DeipChain.Protocol
