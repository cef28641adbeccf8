import DeipChain.Protocol.Authorization

/-!
# The signatures that a transaction requires

Before a wallet signs a transaction it looks for the keys to sign with. `get_required_signatures`
checks the authorities of the transaction with all keys that are available and collects those that
the checks ask for. `minimize_required_signatures` then leaves out one of them after the other and
puts back each that `verify_authority` misses.
-/
namespace DeipChain.Protocol

open Result

variable {Name Key Sig Payload R : Type}

section Checks

variable [DecidableEq Name] [DecidableEq Key] (accounts : Name → Option (AuthorityPack Name Key))
  (available : List Key)

/-- `signed_by`: a key that is available is added to the signatures. -/
def signedByFor (key : Key) (state : SignState Name Key) : Bool × SignState Name Key :=
  match signedBy key state with
  | (true, next) => (true, next)
  | (false, _) =>
    if key ∈ available then
      (true, { state with providedSignatures := state.providedSignatures ++ [(key, true)] })
    else (false, state)

/-- The loop of `check_authority` over the keys. -/
def checkKeysFor (threshold : Nat) : List (Key × Nat) → Nat → SignState Name Key →
    Bool × Nat × SignState Name Key
  | [], total, state => (false, total, state)
  | (key, weight) :: rest, total, state =>
    match signedByFor available key state with
    | (false, next) => checkKeysFor threshold rest total next
    | (true, next) =>
      if addWeight total weight ≥ threshold then (true, addWeight total weight, next)
      else checkKeysFor threshold rest (addWeight total weight) next

/-- `check_authority` at one depth, with available keys. -/
def checkAuthorityWithFor (approves : Name → Check Name Key) (auth : Authority Name Key) :
    Check Name Key := fun state =>
  match checkKeysFor available auth.weightThreshold auth.keyAuths 0 state with
  | (true, _, next) => .ok (true, next)
  | (false, total, next) =>
    checkAccounts approves auth.weightThreshold auth.accountAuths total next

/-- `check_authority` of an authority, with available keys. -/
def checkAuthorityFor : Nat → Authority Name Key → Check Name Key
  | 0 => checkAuthorityWithFor available (fun _ state => .ok (false, state))
  | depth + 1 => checkAuthorityWithFor available (fun name => either
      (fun state => do checkAuthorityFor depth (← getPack accounts name).active state)
      (fun state => do checkAuthorityFor depth (← getPack accounts name).owner state))

/-- `check_authority` of an account, with available keys. -/
def checkAccountFor (name : Name) : Check Name Key := fun state =>
  if name ∈ state.approvedBy then .ok (true, state)
  else either
    (fun state => do
      checkAuthorityFor accounts available maxSigCheckDepth (← getPack accounts name).active state)
    (fun state => do
      checkAuthorityFor accounts available maxSigCheckDepth (← getPack accounts name).owner state)
    state

/-- `check_authority(get_owner(name))`, with available keys. -/
def checkOwnerFor (name : Name) : Check Name Key := fun state => do
  checkAuthorityFor accounts available maxSigCheckDepth (← getPack accounts name).owner state

omit [DecidableEq Name] in
theorem signedByFor_nil (key : Key) (state : SignState Name Key) :
    signedByFor [] key state = signedBy key state := by
  rw [signedByFor, signedBy]
  by_cases provided : key ∈ state.providedSignatures.map Prod.fst
  · rw [if_pos provided]
  · rw [if_neg provided, if_neg (List.not_mem_nil)]

omit [DecidableEq Name] in
theorem checkKeysFor_nil (threshold : Nat) (entries : List (Key × Nat)) (total : Nat)
    (state : SignState Name Key) :
    checkKeysFor [] threshold entries total state = checkKeys threshold entries total state := by
  induction entries generalizing total state with
  | nil => rfl
  | cons entry rest hypothesis =>
    simp only [checkKeysFor, checkKeys, signedByFor_nil, hypothesis] <;> rfl

/-- Without available keys the checks are those of `verify_authority`. -/
theorem checkAuthorityFor_nil (depth : Nat) (auth : Authority Name Key) :
    checkAuthorityFor accounts [] depth auth = checkAuthority accounts depth auth := by
  induction depth generalizing auth with
  | zero =>
    funext state
    simp only [checkAuthorityFor, checkAuthority, checkAuthorityWithFor, checkAuthorityWith,
      checkKeysFor_nil] <;> rfl
  | succ depth hypothesis =>
    funext state
    simp only [checkAuthorityFor, checkAuthority, checkAuthorityWithFor, checkAuthorityWith,
      checkKeysFor_nil, hypothesis] <;> rfl

theorem checkAccountFor_nil (name : Name) :
    checkAccountFor accounts [] name = checkAccount accounts name := by
  funext state
  simp only [checkAccountFor, checkAccount, checkAuthorityFor_nil]

end Checks

section Signatures

variable [LinearOrder Name]

/-- `operation_get_required_authorities` -/
def requireOperation (requirements : Requirements Name Key) (op : Operation Name Key Payload) :
    Requirements Name Key :=
  { requirements with
    requiredActive := op.requiredActive.foldl insertName requirements.requiredActive
    requiredOwner := op.requiredOwner.foldl insertName requirements.requiredOwner
    other := requirements.other ++ op.requiredOther }

/-- `get_required_authorities` -/
def getRequiredAuthorities (ops : List (Operation Name Key Payload)) : Requirements Name Key :=
  ops.foldl requireOperation .empty

/-- A check whose answer is not looked at. -/
def ask (check : Check Name Key) (state : SignState Name Key) :
    Except (AuthorityError Name) (SignState Name Key) := do
  let (_, next) ← check state
  pure next

variable [DecidableEq Key] (accounts : Name → Option (AuthorityPack Name Key))

theorem checkOwnerFor_nil (name : Name) :
    checkOwnerFor accounts [] name = checkOwner accounts name := by
  funext state
  simp only [checkOwnerFor, checkOwner, checkAuthorityFor_nil]

/-- The checks of `get_required_signatures`. Active overrides and the accounts that the
transaction creates have no part in them. -/
def askRequirements (available : List Key) (requirements : Requirements Name Key)
    (start : SignState Name Key) : Except (AuthorityError Name) (SignState Name Key) := do
  let others ← requirements.other.foldlM (fun state auth =>
    ask (checkAuthorityFor accounts available maxSigCheckDepth auth) state) start
  let owners ← requirements.requiredOwner.foldlM (fun state name =>
    ask (checkOwnerFor accounts available name) state) others
  requirements.requiredActive.foldlM (fun state name =>
    ask (checkAccountFor accounts available name) state) owners

/-- The exceptions of the authority checks, as those of a transaction. -/
def liftAuthority {A : Type} (result : Except (AuthorityError Name) A) :
    Except (TransactionError Name) A :=
  result.mapError .authority

/-- `get_required_signatures`. The available keys are listed in the order of their set. -/
def getRequiredSignatures (ops : List (Operation Name Key Payload)) (signatureKeys : List Key)
    (available : List Key) : Except (TransactionError Name) (List Key) := do
  require signatureKeys.Nodup .duplicateSig
  let final ← liftAuthority (askRequirements accounts available (getRequiredAuthorities ops)
    { providedSignatures := signatureKeys.map (fun key => (key, false)), approvedBy := [] })
  -- `remove_unused_signatures`
  let used := (final.providedSignatures.filter Prod.snd).map Prod.fst
  pure (available.filter (fun key => key ∈ used))

/-- The loop of `minimize_required_signatures` for one key. -/
def leaveOut (ops : List (Operation Name Key Payload)) (result : List Key) (key : Key) :
    Except (TransactionError Name) (List Key) :=
  match verifyAuthority accounts ops (result.erase key) with
  | .ok _ => .ok (result.erase key)
  | .error (.missingOwnerAuth _) => .ok result
  | .error (.missingActiveAuth _) => .ok result
  | .error (.missingOtherAuth _) => .ok result
  | .error thrown => .error (.authority thrown)

/-- `minimize_required_signatures` -/
def minimizeRequiredSignatures (ops : List (Operation Name Key Payload))
    (signatureKeys : List Key) (available : List Key) :
    Except (TransactionError Name) (List Key) := do
  let required ← getRequiredSignatures accounts ops signatureKeys available
  required.foldlM (leaveOut accounts ops) required

end Signatures

end DeipChain.Protocol
