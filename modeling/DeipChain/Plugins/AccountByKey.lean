import DeipChain.Chainbase.Replay
import DeipChain.Lib.Outcome
import DeipChain.Lib.Result
import DeipChain.Lib.Table
import DeipChain.Protocol.Authority

/-!
# The lookup of accounts by their keys

The plugin keeps an object for each key that an account has, and for each key that it had one
with the time at which it was taken from the account. Before an operation that changes the
authorities of an account the plugin remembers the keys of the account, and after it the keys
that are new get objects and the objects of those that are gone get the time of the block. What a
handler of the plugin throws is logged and dropped.

The objects are in an index of the chain, so an undo of the chain undoes them too. The remembered
keys are a member of the plugin, which no undo touches.
-/
namespace DeipChain.AccountByKey

open Chainbase Protocol Result

variable {Key : Type}

/-- `fc::time_point_sec::maximum()` -/
def maximumTime : Nat := 0xffffffff

/-- `key_lookup_object` -/
structure KeyLookup (Key : Type) where
  key : Key
  account : String
  deactivationTime : Nat
deriving DecidableEq

/-- The key of the index `by_key_deactivation_time`. -/
def KeyLookup.place (lookup : KeyLookup Key) : Key × String × Nat :=
  (lookup.key, lookup.account, lookup.deactivationTime)

/-- `key_lookup_index`: one unique key besides the identifier. -/
abbrev KeyLookupIndex (Key : Type) := GenericIndex (KeyLookup Key)

def uniqueKeys : List (KeyLookup Key → Key × String × Nat) := [KeyLookup.place]

/-- `account_authority_object`, as far as the plugin reads it. -/
structure AccountAuthority (Key : Type) where
  account : String
  owner : Authority String Key
  active : Authority String Key

/-- The operations that the plugin handles. -/
inductive Operation (Key : Type) where
  | createAccount (newAccountName : String) (owner active : Authority String Key)
  | updateAccount (account : String) (owner active : Option (Authority String Key))
  | recoverAccount (accountToRecover : String) (newOwnerAuthority : Authority String Key)

/-- The account whose authorities an operation sets. -/
def Operation.account : Operation Key → String
  | .createAccount newAccountName _ _ => newAccountName
  | .updateAccount account _ _ => account
  | .recoverAccount accountToRecover _ => accountToRecover

/-- What `update_owner_authority` and `update_active_authority` make of the authorities. -/
def Operation.change (authority : AccountAuthority Key) : Operation Key → AccountAuthority Key
  | .createAccount _ _ _ => authority
  | .updateAccount _ owner active =>
    { authority with owner := owner.getD authority.owner, active := active.getD authority.active }
  | .recoverAccount _ newOwnerAuthority => { authority with owner := newOwnerAuthority }

section Keys

variable [LinearOrder Key]

/-- `insert` of a `flat_set` of keys -/
def insertKey (set : List Key) (key : Key) : List Key :=
  if key ∈ set then set else set.orderedInsert (· ≤ ·) key

/-- The set of the keys of both authorities, as both `cache_auths` and `update_key_lookup` build
    it. -/
def AccountAuthority.keys (authority : AccountAuthority Key) : List Key :=
  (authority.owner.keyAuths ++ authority.active.keyAuths).foldl
    (fun set item => insertKey set item.1) []

end Keys

/-! ## The chain -/

/-- The authorities of the accounts, and the time of the head. The last two fields are not in the
    code: the accounts that were created while the plugin ran, and the keys that accounts got. -/
structure Chain (Key : Type) where
  authorities : List (AccountAuthority Key)
  headBlockTime : Nat
  created : List String
  held : List (String × Key)

/-- `find<account_authority_object, by_account>` -/
def Chain.find (chain : Chain Key) (account : String) : Option (AccountAuthority Key) :=
  chain.authorities.find? fun authority => authority.account == account

/-- The evaluators of the operations, as far as authorities go. What else they check only refuses
    operations. -/
def Chain.evaluate [LinearOrder Key] (chain : Chain Key) (op : Operation Key) :
    Except String (Chain Key) :=
  match op with
  | .createAccount newAccountName owner active => do
    require (newAccountName ∉ chain.authorities.map AccountAuthority.account)
      "Could not insert object, most likely a uniqueness constraint was violated"
    let authority : AccountAuthority Key := ⟨newAccountName, owner, active⟩
    return { chain with
      authorities := chain.authorities ++ [authority]
      created := newAccountName :: chain.created
      held := authority.keys.map (newAccountName, ·) ++ chain.held }
  | op => do
    let authority ← expect (chain.find op.account) "unknown key"
    return { chain with
      authorities := Table.modifyFirst (fun authority => authority.account == op.account)
        (fun authority => op.change authority) chain.authorities
      held := (op.change authority).keys.map (op.account, ·) ++ chain.held }

/-! ## The plugin -/

/-- `cached_keys`, and the index. -/
structure Plugin (Key : Type) where
  cachedKeys : List Key
  lookups : KeyLookupIndex Key

section Handlers

variable [LinearOrder Key]

/-- `find` in the index `by_key_deactivation_time` -/
def findLookup (lookups : KeyLookupIndex Key) (place : Key × String × Nat) : Option Nat :=
  (lookups.indices.toList.find? fun item => item.2.place == place).map Prod.fst

/-- A call on the index. -/
def Plugin.call (plugin : Plugin Key) (outcome : Chainbase.Outcome (KeyLookup Key)) :
    Outcome IndexError (Plugin Key) :=
  match outcome with
  | .ok _ lookups => .returned { plugin with lookups }
  | .error thrown lookups => .thrown thrown { plugin with lookups }

/-- A round of the loop over the keys in the authorities. -/
def Plugin.addLookup (account : String) (plugin : Plugin Key) (key : Key) :
    Outcome IndexError (Plugin Key) :=
  if key ∈ plugin.cachedKeys then
    .returned { plugin with cachedKeys := plugin.cachedKeys.erase key }
  else match findLookup plugin.lookups (key, account, maximumTime) with
    | some _ => .returned plugin
    | none => plugin.call (plugin.lookups.emplace uniqueKeys fun _ => ⟨key, account, maximumTime⟩)

/-- A round of the loop over the keys that are no longer in the authorities. -/
def Plugin.deactivateLookup (account : String) (now : Nat) (plugin : Plugin Key) (key : Key) :
    Outcome IndexError (Plugin Key) :=
  match findLookup plugin.lookups (key, account, maximumTime) with
  | some id => plugin.call (plugin.lookups.modify uniqueKeys id fun lookup =>
      { lookup with deactivationTime := now })
  | none => .returned plugin

/-- `update_key_lookup` -/
def Plugin.updateKeyLookup (authority : AccountAuthority Key) (now : Nat) (plugin : Plugin Key) :
    Outcome IndexError (Plugin Key) :=
  (Outcome.each (fun _ plugin key => plugin.addLookup authority.account key) plugin
    authority.keys).andThen fun plugin =>
  (Outcome.each (fun _ plugin key => plugin.deactivateLookup authority.account now key) plugin
    plugin.cachedKeys).andThen fun plugin => .returned { plugin with cachedKeys := [] }

/-- `pre_operation_visitor`: `clear_cache`, and `cache_auths` of an account that is there. -/
def Plugin.preOperation (chain : Chain Key) (op : Operation Key) (plugin : Plugin Key) : Plugin Key :=
  match op with
  | .createAccount _ _ _ => { plugin with cachedKeys := [] }
  | op => { plugin with cachedKeys := ((chain.find op.account).map AccountAuthority.keys).getD [] }

/-- `post_operation_visitor` -/
def Plugin.postOperation (chain : Chain Key) (op : Operation Key) (plugin : Plugin Key) :
    Outcome IndexError (Plugin Key) :=
  match chain.find op.account with
  | some authority => plugin.updateKeyLookup authority chain.headBlockTime
  | none => .returned plugin

end Handlers

/-! ## The chain with the plugin -/

/-- The chain, the chains at the starts of the sessions that are open, and the plugin. -/
structure Node (Key : Type) where
  chain : Chain Key
  saved : List (Chain Key)
  plugin : Plugin Key

/-- What happens to a node. Operations may be part of a transaction or of a proposal. -/
inductive Event (Key : Type) where
  | operation (op : Operation Key)
  /-- An operation that its evaluator refuses; the session around it is undone later. -/
  | refused (op : Operation Key)
  /-- Any other operation; it leaves the keys in the authorities. -/
  | other (authorities : List (AccountAuthority Key))
  | advance (time : Nat)
  | startSession
  | undo
  | squash
  | commit (revision : Int)

section Steps

variable [LinearOrder Key]

/-- `apply_operation`: `DEIP_TRY_NOTIFY` keeps what a handler has done until it throws. -/
def Node.operate (node : Node Key) (op : Operation Key) : Except String (Node Key) := do
  let cached := node.plugin.preOperation node.chain op
  let chain ← node.chain.evaluate op
  return { node with chain, plugin := (cached.postOperation chain op).state }

/-- The keys that each account has. -/
def keysOf (authorities : List (AccountAuthority Key)) : List (String × List Key) :=
  authorities.map fun authority => (authority.account, authority.keys)

def Node.step (node : Node Key) : Event Key → Except String (Node Key)
  | .operation op => node.operate op
  | .refused op => return { node with plugin := node.plugin.preOperation node.chain op }
  | .other authorities => do
    require (keysOf authorities = keysOf node.chain.authorities) "other keys"
    return { node with chain := { node.chain with authorities } }
  | .advance time => return { node with chain := { node.chain with headBlockTime := time } }
  | .startSession => return { node with
      saved := node.chain :: node.saved
      plugin := { node.plugin with lookups := node.plugin.lookups.startUndoSession } }
  | .undo =>
    match node.saved, node.plugin.lookups.undo uniqueKeys with
    | chain :: saved, .ok _ lookups => return ⟨chain, saved, { node.plugin with lookups }⟩
    | [], .ok _ _ => return node
    | _, .error _ _ => throw "the undo throws"
  | .squash => return { node with
      saved := node.saved.tail
      plugin := { node.plugin with lookups := node.plugin.lookups.squash } }
  | .commit revision =>
    let lookups := node.plugin.lookups.commit revision
    return { node with
      saved := node.saved.take lookups.stack.length
      plugin := { node.plugin with lookups } }

end Steps

/-- The accounts of a genesis, for which no handler runs. -/
def genesis (authorities : List (AccountAuthority Key)) (time : Nat) : Node Key where
  chain := ⟨authorities, time, [], []⟩
  saved := []
  plugin := ⟨[], GenericIndex.empty⟩

end DeipChain.AccountByKey
