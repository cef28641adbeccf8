import DeipChain.Lib.Result
import Mathlib.Data.List.Sort
import Mathlib.Data.Set.Basic

/-!
# Authorities and the keys that satisfy them

An authority is satisfied by keys and by accounts whose weights reach its threshold, and
an account stands behind it when the account's own active or owner authority is
satisfied. `Satisfied` says so without bounds. `checkAuthority` is what the node computes:
it follows accounts to a fixed depth, remembers in the signing state which accounts it
has found to approve, and adds weights modulo `2 ^ 32`. Every authority it accepts is
satisfied, from every signing state that remembers only accounts that approve
(`checkAuthority_sound`).
-/
namespace DeipChain.Protocol

open Result

/-- `authority`: the entries of the two maps in the order of their keys. -/
structure Authority (Name Key : Type) where
  weightThreshold : Nat
  accountAuths : List (Name × Nat)
  keyAuths : List (Key × Nat)
  deriving DecidableEq

/-- `authority_pack`, and `account_authority_object` as far as it is read here. -/
structure AuthorityPack (Name Key : Type) where
  owner : Authority Name Key
  active : Authority Name Key
  activeOverrides : List (Nat × Authority Name Key)
  deriving DecidableEq

/-- The exceptions of `verify_authority` and of what it calls. -/
inductive AuthorityError (Name : Type) where
  | unknownAccount (name : Name)
  | notSupported
  | missingOtherAuth (message : String)
  | missingActiveAuth (name : Name)
  | missingOwnerAuth (name : Name)
  | irrelevantSig
  deriving DecidableEq

/-- `DEIP_MAX_SIG_CHECK_DEPTH` -/
def maxSigCheckDepth : Nat := 2

variable {Name Key : Type}

section Satisfied

variable (accounts : Name → Option (AuthorityPack Name Key)) (keys : List Key)

mutual

/-- The keys and the accounts that approve carry enough weight. -/
inductive Satisfied : Authority Name Key → Prop
  | intro (auth : Authority Name Key) (signing : List (Key × Nat)) (approving : List (Name × Nat))
      (ownKeys : signing.Sublist auth.keyAuths) (signed : ∀ entry ∈ signing, entry.1 ∈ keys)
      (ownNames : approving.Sublist auth.accountAuths)
      (approved : ∀ entry ∈ approving, Approves entry.1)
      (enough : auth.weightThreshold ≤
        (signing.map Prod.snd).sum + (approving.map Prod.snd).sum) : Satisfied auth

/-- One of the account's own authorities is satisfied. -/
inductive Approves : Name → Prop
  | active (name : Name) (pack : AuthorityPack Name Key) (known : accounts name = some pack)
      (satisfied : Satisfied pack.active) : Approves name
  | owner (name : Name) (pack : AuthorityPack Name Key) (known : accounts name = some pack)
      (satisfied : Satisfied pack.owner) : Approves name

end

end Satisfied

/-- `sign_state`: which of the provided signatures have been used, and which accounts have
been found to approve. -/
structure SignState (Name Key : Type) where
  providedSignatures : List (Key × Bool)
  approvedBy : List Name

/-- A check that may mark signatures as used and remember accounts. -/
abbrev Check (Name Key : Type) :=
  SignState Name Key → Except (AuthorityError Name) (Bool × SignState Name Key)

section Checks

variable [DecidableEq Name] [DecidableEq Key]

/-- `signed_by`, with no other keys available. -/
def signedBy (key : Key) (state : SignState Name Key) : Bool × SignState Name Key :=
  if key ∈ state.providedSignatures.map Prod.fst then
    (true, { state with
      providedSignatures :=
        state.providedSignatures.map (fun entry => (entry.1, entry.2 || entry.1 = key)) })
  else (false, state)

/-- `total_weight += weight` -/
def addWeight (total weight : Nat) : Nat := (total + weight) % 2 ^ 32

/-- The loop over the keys: whether the threshold is reached, and the weight so far. -/
def checkKeys (threshold : Nat) : List (Key × Nat) → Nat → SignState Name Key →
    Bool × Nat × SignState Name Key
  | [], total, state => (false, total, state)
  | (key, weight) :: rest, total, state =>
    match signedBy key state with
    | (false, next) => checkKeys threshold rest total next
    | (true, next) =>
      if addWeight total weight ≥ threshold then (true, addWeight total weight, next)
      else checkKeys threshold rest (addWeight total weight) next

/-- The loop over the accounts. -/
def checkAccounts (approves : Name → Check Name Key) (threshold : Nat) :
    List (Name × Nat) → Nat → Check Name Key
  | [], total, state => .ok (decide (total ≥ threshold), state)
  | (name, weight) :: rest, total, state =>
    if name ∈ state.approvedBy then
      if addWeight total weight ≥ threshold then .ok (true, state)
      else checkAccounts approves threshold rest (addWeight total weight) state
    else do
      let (approved, next) ← approves name state
      if approved then
        let remembered := { next with approvedBy := name :: next.approvedBy }
        if addWeight total weight ≥ threshold then .ok (true, remembered)
        else checkAccounts approves threshold rest (addWeight total weight) remembered
      else checkAccounts approves threshold rest total next

/-- `check_authority` at one depth. -/
def checkAuthorityWith (approves : Name → Check Name Key) (auth : Authority Name Key) :
    Check Name Key := fun state =>
  match checkKeys auth.weightThreshold auth.keyAuths 0 state with
  | (true, _, next) => .ok (true, next)
  | (false, total, next) =>
    checkAccounts approves auth.weightThreshold auth.accountAuths total next

/-- The second check is made when the first one fails. -/
def either (first second : Check Name Key) : Check Name Key := fun state => do
  let (passed, next) ← first state
  if passed then pure (true, next) else second next

variable (accounts : Name → Option (AuthorityPack Name Key))

/-- The getters of `_apply_transaction`, which throw on an unknown name. -/
def getPack (name : Name) : Except (AuthorityError Name) (AuthorityPack Name Key) :=
  expect (accounts name) (.unknownAccount name)

/-- `check_authority`, with the depth that is left. At the greatest depth an account that
has not been found before is passed over. -/
def checkAuthority : Nat → Authority Name Key → Check Name Key
  | 0 => checkAuthorityWith (fun _ state => .ok (false, state))
  | depth + 1 => checkAuthorityWith (fun name => either
      (fun state => do checkAuthority depth (← getPack accounts name).active state)
      (fun state => do checkAuthority depth (← getPack accounts name).owner state))

/-- `check_authority` of the active authority of an account, then of its owner
authority. -/
def checkAccount (name : Name) : Check Name Key := fun state =>
  if name ∈ state.approvedBy then .ok (true, state)
  else either
    (fun state => do checkAuthority accounts maxSigCheckDepth (← getPack accounts name).active state)
    (fun state => do checkAuthority accounts maxSigCheckDepth (← getPack accounts name).owner state)
    state

end Checks

section Enough

open Classical in
/-- The weights of the entries whose names are chosen. -/
noncomputable def weightOf {A : Type} (entries : List (A × Nat)) (chosen : Set A) : Nat :=
  ((entries.filter (fun entry => entry.1 ∈ chosen)).map Prod.snd).sum

variable {A : Type} {chosen wider : Set A} {entries : List (A × Nat)}

@[simp] theorem weightOf_nil : weightOf ([] : List (A × Nat)) chosen = 0 := rfl

theorem weightOf_cons_of_mem {name : A} {weight : Nat} (inside : name ∈ chosen) :
    weightOf ((name, weight) :: entries) chosen = weight + weightOf entries chosen := by
  simp [weightOf, inside]

theorem weightOf_cons_of_not_mem {name : A} {weight : Nat} (outside : name ∉ chosen) :
    weightOf ((name, weight) :: entries) chosen = weightOf entries chosen := by
  simp [weightOf, outside]

theorem weightOf_cons_le (name : A) (weight : Nat) (entries : List (A × Nat)) (chosen : Set A) :
    weightOf entries chosen ≤ weightOf ((name, weight) :: entries) chosen := by
  by_cases inside : name ∈ chosen
  · rw [weightOf_cons_of_mem inside]
    omega
  · rw [weightOf_cons_of_not_mem inside]

theorem weightOf_mono (grows : chosen ⊆ wider) (entries : List (A × Nat)) :
    weightOf entries chosen ≤ weightOf entries wider := by
  induction entries with
  | nil => simp
  | cons entry rest inductionHypothesis =>
    obtain ⟨name, weight⟩ := entry
    by_cases inside : name ∈ chosen
    · rw [weightOf_cons_of_mem inside, weightOf_cons_of_mem (grows inside)]
      omega
    · rw [weightOf_cons_of_not_mem inside]
      exact inductionHypothesis.trans (weightOf_cons_le name weight rest wider)

/-- The entries that are counted. -/
theorem exists_weightOf (entries : List (A × Nat)) (chosen : Set A) :
    ∃ counted : List (A × Nat), counted.Sublist entries ∧ (∀ entry ∈ counted, entry.1 ∈ chosen) ∧
      weightOf entries chosen = (counted.map Prod.snd).sum := by
  classical
  refine ⟨_, List.filter_sublist, fun entry member => ?_, rfl⟩
  exact of_decide_eq_true (List.mem_filter.mp member).2

/-- Chosen entries weigh no more than all of them. -/
theorem sum_le_weightOf {some : List (A × Nat)} (among : some.Sublist entries)
    (inside : ∀ entry ∈ some, entry.1 ∈ chosen) :
    (some.map Prod.snd).sum ≤ weightOf entries chosen := by
  induction among with
  | slnil => simp
  | cons entry _ inductionHypothesis =>
    exact (inductionHypothesis inside).trans (weightOf_cons_le entry.1 entry.2 _ chosen)
  | cons_cons entry _ inductionHypothesis =>
    obtain ⟨first, rest⟩ := List.forall_mem_cons.mp inside
    have bound := inductionHypothesis rest
    rw [weightOf_cons_of_mem first, List.map_cons, List.sum_cons]
    omega

/-- The keys and the accounts of a set carry enough weight. -/
def Enough (keys : List Key) (approving : Set Name) (auth : Authority Name Key) : Prop :=
  auth.weightThreshold ≤
    weightOf auth.keyAuths {key | key ∈ keys} + weightOf auth.accountAuths approving

theorem Enough.mono {keys : List Key} {approving others : Set Name} {auth : Authority Name Key}
    (enough : Enough keys approving auth) (grows : approving ⊆ others) :
    Enough keys others auth := by
  have wider := weightOf_mono grows auth.accountAuths
  unfold Enough at *
  omega

end Enough

section Sound

/-- The state has signatures of certain keys and of no other than the signing keys, and it
remembers the accounts that were given and only accounts of a set. -/
structure SignState.Within (keys known : List Key) (given approving : Set Name)
    (state : SignState Name Key) : Prop where
  provided : ∀ entry ∈ state.providedSignatures, entry.1 ∈ keys
  knows : ∀ key ∈ known, key ∈ state.providedSignatures.map Prod.fst
  given : ∀ name ∈ given, name ∈ state.approvedBy
  remembered : ∀ name ∈ state.approvedBy, name ∈ approving

/-- A check that passes only what holds, and remembers nothing outside the set. -/
def StaysWithin (keys known : List Key) (given approving : Set Name) (property : Prop)
    (check : Check Name Key) : Prop :=
  ∀ state passed next, state.Within keys known given approving → check state = .ok (passed, next) →
    next.Within keys known given approving ∧ (passed = true → property)

variable {accounts : Name → Option (AuthorityPack Name Key)} {keys known : List Key}
  {given approving : Set Name}

theorem StaysWithin.imp {property conclusion : Prop} {check : Check Name Key}
    (sound : StaysWithin keys known given approving property check)
    (implies : property → conclusion) :
    StaysWithin keys known given approving conclusion check := by
  intro state passed next before ran
  obtain ⟨kept, means⟩ := sound state passed next before ran
  exact ⟨kept, fun accepted => implies (means accepted)⟩

theorem either_within {property : Prop} {first second : Check Name Key}
    (one : StaysWithin keys known given approving property first)
    (other : StaysWithin keys known given approving property second) :
    StaysWithin keys known given approving property (either first second) := by
  intro state passed next sound ran
  obtain ⟨⟨accepted, middle⟩, asked, later⟩ := bind_ok_iff.mp ran
  obtain ⟨kept, means⟩ := one state accepted middle sound asked
  dsimp only at later
  split at later
  · rename_i yes
    simp only [pure_ok_iff, Prod.mk.injEq] at later
    obtain ⟨rfl, rfl⟩ := later
    exact ⟨kept, fun _ => means yes⟩
  · exact other middle passed next kept later

/-- A check of one of the authorities of an account. -/
theorem pack_within {property : Prop} {name : Name}
    {check : AuthorityPack Name Key → Check Name Key}
    (each : ∀ pack, accounts name = some pack →
      StaysWithin keys known given approving property (check pack)) :
    StaysWithin keys known given approving property
      (fun state => do check (← getPack accounts name) state) := by
  intro state passed next sound ran
  obtain ⟨pack, found, checked⟩ := bind_ok_iff.mp ran
  exact each pack (expect_ok_iff.mp found) state passed next sound checked

theorem SignState.Within.remember {state : SignState Name Key} {name : Name}
    (sound : state.Within keys known given approving) (member : name ∈ approving) :
    SignState.Within keys known given approving
      { state with approvedBy := name :: state.approvedBy } := by
  refine ⟨sound.provided, sound.knows,
    fun other member => List.mem_cons_of_mem _ (sound.given other member),
    fun other remembered => ?_⟩
  rcases List.mem_cons.mp remembered with rfl | before
  · exact member
  · exact sound.remembered other before

variable [DecidableEq Key] {state next : SignState Name Key}

theorem signedBy_within {key : Key} {signed : Bool}
    (sound : state.Within keys known given approving)
    (asked : signedBy key state = (signed, next)) :
    next.Within keys known given approving ∧ (signed = true → key ∈ keys) := by
  unfold signedBy at asked
  split at asked
  · rename_i provided
    obtain ⟨rfl, rfl⟩ := Prod.mk.inj asked
    obtain ⟨entry, member, rfl⟩ := List.mem_map.mp provided
    refine ⟨⟨?_, ?_, sound.given, sound.remembered⟩, fun _ => sound.provided entry member⟩
    · intro other marked
      obtain ⟨original, inState, rfl⟩ := List.mem_map.mp marked
      exact sound.provided original inState
    · intro other inside
      simpa only [List.map_map, Function.comp_def] using sound.knows other inside
  · obtain ⟨rfl, rfl⟩ := Prod.mk.inj asked
    exact ⟨sound, by simp⟩

theorem addWeight_le (total weight : Nat) : addWeight total weight ≤ total + weight :=
  Nat.mod_le _ _

/-- The weight counted so far comes from signing keys. -/
theorem checkKeys_within {threshold total final : Nat} {entries : List (Key × Nat)} {reached : Bool}
    (sound : state.Within keys known given approving)
    (ran : checkKeys threshold entries total state = (reached, final, next)) :
    next.Within keys known given approving ∧ (reached = true → threshold ≤ final) ∧
      final ≤ total + weightOf entries {key | key ∈ keys} := by
  induction entries generalizing total state with
  | nil =>
    simp only [checkKeys, Prod.mk.injEq] at ran
    obtain ⟨rfl, rfl, rfl⟩ := ran
    exact ⟨sound, by simp, by simp⟩
  | cons entry rest inductionHypothesis =>
    obtain ⟨key, weight⟩ := entry
    have wider := weightOf_cons_le key weight rest {key | key ∈ keys}
    simp only [checkKeys] at ran
    split at ran
    · rename_i after asked
      obtain ⟨kept, _⟩ := signedBy_within sound asked
      obtain ⟨final', enough, bound⟩ := inductionHypothesis kept ran
      exact ⟨final', enough, by omega⟩
    · rename_i after asked
      obtain ⟨kept, own⟩ := signedBy_within sound asked
      have step := addWeight_le total weight
      have counted : weightOf ((key, weight) :: rest) {key | key ∈ keys} =
          weight + weightOf rest {key | key ∈ keys} := weightOf_cons_of_mem (own rfl)
      split at ran
      · rename_i enough
        simp only [Prod.mk.injEq] at ran
        obtain ⟨rfl, rfl, rfl⟩ := ran
        exact ⟨kept, fun _ => enough, by omega⟩
      · obtain ⟨final', enough, bound⟩ := inductionHypothesis kept ran
        exact ⟨final', enough, by omega⟩

variable [DecidableEq Name]

omit [DecidableEq Key] in
/-- An accepted list of accounts has enough weight behind it. -/
theorem checkAccounts_within {approves : Name → Check Name Key}
    (each : ∀ name, StaysWithin keys known given approving (name ∈ approving) (approves name))
    {threshold total : Nat} {entries : List (Name × Nat)} {passed : Bool}
    (sound : state.Within keys known given approving)
    (ran : checkAccounts approves threshold entries total state = .ok (passed, next)) :
    next.Within keys known given approving ∧
      (passed = true → threshold ≤ total + weightOf entries approving) := by
  induction entries generalizing total state with
  | nil =>
    simp only [checkAccounts, Except.ok.injEq, Prod.mk.injEq] at ran
    obtain ⟨rfl, rfl⟩ := ran
    exact ⟨sound, fun enough => by simpa using enough⟩
  | cons entry rest inductionHypothesis =>
    obtain ⟨name, weight⟩ := entry
    have step := addWeight_le total weight
    -- what an account adds once it is known to approve
    have added : ∀ {middle : SignState Name Key}, middle.Within keys known given approving →
        name ∈ approving →
        (if addWeight total weight ≥ threshold then .ok (true, middle)
          else checkAccounts approves threshold rest (addWeight total weight) middle) =
            .ok (passed, next) →
        next.Within keys known given approving ∧
          (passed = true → threshold ≤ total + weightOf ((name, weight) :: rest) approving) := by
      intro middle kept approved outcome
      rw [weightOf_cons_of_mem approved]
      split at outcome
      · rename_i enough
        simp only [Except.ok.injEq, Prod.mk.injEq] at outcome
        obtain ⟨rfl, rfl⟩ := outcome
        exact ⟨kept, fun _ => by omega⟩
      · obtain ⟨final, enough⟩ := inductionHypothesis kept outcome
        exact ⟨final, fun accepted => by have := enough accepted; omega⟩
    rw [checkAccounts] at ran
    split at ran
    · rename_i known
      exact added sound (sound.remembered name known) ran
    · obtain ⟨⟨approved, after⟩, asked, later⟩ := bind_ok_iff.mp ran
      obtain ⟨kept, means⟩ := each name state approved after sound asked
      dsimp only at later
      split at later
      · rename_i yes
        exact added (kept.remember (means yes)) (means yes) later
      · obtain ⟨final, enough⟩ := inductionHypothesis kept later
        have wider := weightOf_cons_le name weight rest approving
        exact ⟨final, fun accepted => by have := enough accepted; omega⟩

theorem checkAuthorityWith_within {approves : Name → Check Name Key}
    (each : ∀ name, StaysWithin keys known given approving (name ∈ approving) (approves name))
    (auth : Authority Name Key) :
    StaysWithin keys known given approving (Enough keys approving auth)
      (checkAuthorityWith approves auth) := by
  intro state passed next sound ran
  unfold checkAuthorityWith at ran
  split at ran
  · rename_i final after counted
    simp only [Except.ok.injEq, Prod.mk.injEq] at ran
    obtain ⟨rfl, rfl⟩ := ran
    obtain ⟨kept, enough, bound⟩ := checkKeys_within sound counted
    have reached := enough rfl
    exact ⟨kept, fun _ => by unfold Enough; omega⟩
  · rename_i total after counted
    obtain ⟨kept, _, bound⟩ := checkKeys_within sound counted
    obtain ⟨final, enough⟩ := checkAccounts_within each kept ran
    exact ⟨final, fun accepted => by have := enough accepted; unfold Enough; omega⟩

/-- The set holds every account one of whose authorities it satisfies. -/
def ClosedUnder (accounts : Name → Option (AuthorityPack Name Key)) (keys : List Key)
    (approving : Set Name) : Prop :=
  ∀ name pack, accounts name = some pack →
    Enough keys approving pack.active ∨ Enough keys approving pack.owner → name ∈ approving

/-- An authority that is accepted has enough weight behind it in every closed set that
holds what the state remembers.

Proof: induction over the depth that is left. An account is approved only through one of
its own authorities, checked one level deeper, or because it was found to approve before. -/
theorem checkAuthority_within (closed : ClosedUnder accounts keys approving) (depth : Nat)
    (auth : Authority Name Key) :
    StaysWithin keys known given approving (Enough keys approving auth)
      (checkAuthority accounts depth auth) := by
  induction depth generalizing auth with
  | zero =>
    refine checkAuthorityWith_within (fun name state passed next sound ran => ?_) auth
    simp only [Except.ok.injEq, Prod.mk.injEq] at ran
    obtain ⟨rfl, rfl⟩ := ran
    exact ⟨sound, by simp⟩
  | succ depth inductionHypothesis =>
    refine checkAuthorityWith_within (fun name => either_within ?_ ?_) auth
    · exact pack_within (fun pack known => (inductionHypothesis pack.active).imp
        (fun enough => closed name pack known (.inl enough)))
    · exact pack_within (fun pack known => (inductionHypothesis pack.owner).imp
        (fun enough => closed name pack known (.inr enough)))

end Sound

/-!
The accounts that approve are a closed set. This gives the soundness of the checks with
respect to `Satisfied`.
-/

section Approving

variable (accounts : Name → Option (AuthorityPack Name Key)) (keys : List Key)

/-- The state knows only the signing keys, and remembers only accounts that approve. -/
structure SignState.Sound (state : SignState Name Key) : Prop where
  provided : ∀ entry ∈ state.providedSignatures, entry.1 ∈ keys
  remembered : ∀ name ∈ state.approvedBy, Approves accounts keys name

/-- A check that passes only what holds, and keeps the state sound. -/
def SoundCheck (property : Prop) (check : Check Name Key) : Prop :=
  ∀ state passed next, state.Sound accounts keys → check state = .ok (passed, next) →
    next.Sound accounts keys ∧ (passed = true → property)

variable {accounts keys}

theorem soundCheck_iff {property : Prop} {check : Check Name Key} :
    SoundCheck accounts keys property check ↔
      StaysWithin keys [] ∅ {name | Approves accounts keys name} property check := by
  constructor
  · intro sound state passed next within ran
    obtain ⟨kept, means⟩ := sound state passed next ⟨within.provided, within.remembered⟩ ran
    exact ⟨⟨kept.provided, by simp, by simp, kept.remembered⟩, means⟩
  · intro stays state passed next sound ran
    obtain ⟨kept, means⟩ := stays state passed next 
      ⟨sound.provided, by simp, by simp, sound.remembered⟩ ran
    exact ⟨⟨kept.provided, kept.remembered⟩, means⟩

theorem SoundCheck.imp {property conclusion : Prop} {check : Check Name Key}
    (sound : SoundCheck accounts keys property check) (implies : property → conclusion) :
    SoundCheck accounts keys conclusion check :=
  soundCheck_iff.mpr ((soundCheck_iff.mp sound).imp implies)

theorem either_sound {property : Prop} {first second : Check Name Key}
    (one : SoundCheck accounts keys property first)
    (other : SoundCheck accounts keys property second) :
    SoundCheck accounts keys property (either first second) :=
  soundCheck_iff.mpr (either_within (soundCheck_iff.mp one) (soundCheck_iff.mp other))

/-- A check of one of the authorities of an account. -/
theorem pack_sound {property : Prop} {name : Name}
    {check : AuthorityPack Name Key → Check Name Key}
    (each : ∀ pack, accounts name = some pack → SoundCheck accounts keys property (check pack)) :
    SoundCheck accounts keys property
      (fun state => do check (← getPack accounts name) state) :=
  soundCheck_iff.mpr (pack_within (fun pack known => soundCheck_iff.mp (each pack known)))

/-- Enough weight is the weight of some keys and accounts that approve. -/
theorem Enough.satisfied {auth : Authority Name Key}
    (enough : Enough keys {name | Approves accounts keys name} auth) :
    Satisfied accounts keys auth := by
  obtain ⟨signing, ownKeys, signed, keyWeight⟩ := exists_weightOf auth.keyAuths {key | key ∈ keys}
  obtain ⟨approved, ownNames, approves, accountWeight⟩ :=
    exists_weightOf auth.accountAuths {name | Approves accounts keys name}
  refine .intro auth signing approved ownKeys signed ownNames approves ?_
  rw [← keyWeight, ← accountWeight]
  exact enough

theorem closedUnder_approves :
    ClosedUnder accounts keys {name | Approves accounts keys name} := by
  rintro name pack known (active | owner)
  · exact .active name pack known active.satisfied
  · exact .owner name pack known owner.satisfied

variable [DecidableEq Name] [DecidableEq Key]

/-- An accepted authority is satisfied. -/
theorem checkAuthority_sound (depth : Nat) (auth : Authority Name Key) :
    SoundCheck accounts keys (Satisfied accounts keys auth) (checkAuthority accounts depth auth) :=
  soundCheck_iff.mpr
    ((checkAuthority_within closedUnder_approves depth auth).imp Enough.satisfied)

theorem checkAccount_sound (name : Name) :
    SoundCheck accounts keys (Approves accounts keys name) (checkAccount accounts name) := by
  intro state passed next sound ran
  unfold checkAccount at ran
  split at ran
  · rename_i known
    simp only [Except.ok.injEq, Prod.mk.injEq] at ran
    obtain ⟨rfl, rfl⟩ := ran
    exact ⟨sound, fun _ => sound.remembered name known⟩
  · refine either_sound ?_ ?_ state passed next sound ran
    · exact pack_sound (fun pack known => (checkAuthority_sound maxSigCheckDepth pack.active).imp
        (fun satisfied => .active name pack known satisfied))
    · exact pack_sound (fun pack known => (checkAuthority_sound maxSigCheckDepth pack.owner).imp
        (fun satisfied => .owner name pack known satisfied))

end Approving

end DeipChain.Protocol
