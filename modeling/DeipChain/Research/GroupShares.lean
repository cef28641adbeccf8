import Mathlib.Algebra.Order.Ring.Int
import DeipChain.Lib.Result
import DeipChain.Lib.Table

/-!
# Shares in a research group

The members of a research group hold tokens that add up to one hundred percent. A
member who joins dilutes the others, but none of them below one percent, and gets what
is left. When a member leaves, the others are scaled up, and the weakest of them gets
what the roundings leave.

Both operations check that the tokens add up. The dilution does not check that anything
is left: the floor of one percent can give the members back more than their dilution
frees, and the share of the new member is then zero or negative.
-/
namespace DeipChain.Research

open DeipChain.Result DeipChain.Table

abbrev Name := String

/-- `DEIP_100_PERCENT`. -/
def fullShare : Int := 10000

/-- `DEIP_1_PERCENT`. -/
def onePercent : Int := fullShare / 100

/-- `research_group_token_object`, within one group. -/
structure GroupToken where
  owner : Name
  amount : Int
deriving DecidableEq, Repr

def totalShare (tokens : List GroupToken) : Int :=
  total GroupToken.amount tokens

/-! ## The service -/

def getTokenByMember (tokens : List GroupToken) (member : Name) : Except String GroupToken :=
  expect (tokens.find? fun token => token.owner == member) "unknown key"

/-- Creates the token of a new member. Its owner and group are a unique key. -/
def createToken (tokens : List GroupToken) (owner : Name) (amount : Int) :
    Except String (List GroupToken) := do
  require (∀ token ∈ tokens, token.owner ≠ owner)
    "could not insert object, most likely a uniqueness constraint was violated"
  return tokens ++ [⟨owner, amount⟩]

/-- What a new member takes from an amount. -/
def dilution (share amount : Int) : Int :=
  (share * amount).tdiv fullShare

/-- What a member has after another one joined. -/
def diluted (share amount : Int) : Int :=
  if amount - dilution share amount < onePercent then onePercent
  else amount - dilution share amount

def distribution : String :=
  "RGT shares distribution error. Actual: ${actual}. Required: ${required}"

/-- An individual who invites gives the share away. Otherwise all members are diluted. -/
def shareOut (tokens : List GroupToken) (account : Name) (share : Int) (inviter : Name) :
    Except String (List GroupToken) :=
  if inviter ≠ "" then do
    let token ← getTokenByMember tokens inviter
    require (onePercent < token.amount - share)
      "Inviter ${inviter} does not have enough RGT amount to invite ${invitee}. Inviter RGT: ${inviter_rgt}. Invitee RGT ${invitee_rgt}"
    createToken (modifyFirst (fun token => token.owner == inviter)
      (fun token => { token with amount := token.amount - share }) tokens) account share
  else
    let members := tokens.map fun token => { token with amount := diluted share token.amount }
    createToken members account (fullShare - totalShare members)

/-- `add_member_to_research_group`. -/
def addMember (tokens : List GroupToken) (account : Name) (share : Int) (inviter : Name) :
    Except String (List GroupToken) := do
  let created ← shareOut tokens account share inviter
  require (totalShare created = fullShare) distribution
  return created

/-- An amount as a part of what stays when a share leaves. -/
def scaled (share amount : Int) : Int :=
  (amount * fullShare).tdiv (fullShare - share)

/-- The walk that looks for the smallest amount, with the owner and the amount found so
    far. -/
def weaker (weakest : Name × Int) (token : GroupToken) : Name × Int :=
  if weakest.2 = 0 ∨ token.amount < weakest.2 then (token.owner, token.amount) else weakest

/-- The remainder goes to the weakest member. -/
def giveRemainder (tokens : List GroupToken) : Except String (List GroupToken) :=
  let remainder := fullShare - totalShare tokens
  let weakest := (tokens.foldl weaker ("", 0)).1
  if remainder ≠ 0 ∧ weakest ≠ "" then do
    let _ ← getTokenByMember tokens weakest
    return modifyFirst (fun token => token.owner == weakest)
      (fun token => { token with amount := token.amount + remainder }) tokens
  else return tokens

/-- `remove_member_from_research_group`. The scaling divides by zero when the leaving share
    is the whole and other members are left. -/
def removeMember (tokens : List GroupToken) (account : Name) : Except String (List GroupToken) := do
  let token ← getTokenByMember tokens account
  let others := tokens.eraseP fun token => token.owner == account
  require (others = [] ∨ token.amount ≠ fullShare) "divide by zero"
  let remaining ← giveRemainder
    (others.map fun other => { other with amount := scaled token.amount other.amount })
  require (totalShare remaining = fullShare) distribution
  return remaining

/-! ## Founding, joining and leaving -/

/-- A group as its creation leaves it: the creator has all of it, and invites the other
    members that the genesis file lists. -/
def found (creator : Name) (members : List Name) : Except String (List GroupToken) := do
  require (∀ name ∈ creator :: members, name ≠ "") "Account name ${n} is invalid"
  let founded ← addMember [] creator fullShare ""
  (members.filter fun member => member != creator).foldlM
    (fun tokens member => addMember tokens member (fullShare / members.length) creator) founded

/-- `join_research_group_membership_operation` and `leave_research_group_membership_operation`
    on one group that is not personal. -/
inductive Membership where
  | join (member : Name)
  | leave (member : Name)
deriving DecidableEq, Repr

def isMember (tokens : List GroupToken) (member : Name) : Bool :=
  tokens.any fun token => token.owner == member

/-- The evaluators, as far as they concern the shares. Names are validated not to be empty. -/
def Membership.apply (tokens : List GroupToken) : Membership → Except String (List GroupToken)
  | join member => do
    require (member ≠ "") "Account name ${n} is invalid"
    require (isMember tokens member = false) "Account ${1} is already a member of ${2} research group"
    addMember tokens member (fullShare / (tokens.length + 1)) ""
  | leave member => do
    require (isMember tokens member = true) "Account ${1} is not a member of ${2} research group."
    removeMember tokens member

/-! ## Fair shares -/

/-- The members have names of their own and positive shares, which add up to the whole. -/
structure Fair (tokens : List GroupToken) : Prop where
  positive : ∀ token ∈ tokens, 0 < token.amount
  whole : totalShare tokens = fullShare
  distinct : (tokens.map GroupToken.owner).Nodup
  named : ∀ token ∈ tokens, token.owner ≠ ""

/-- What the dilution of the members frees. -/
def freed (share : Int) (tokens : List GroupToken) : Int :=
  total (fun token => dilution share token.amount) tokens

/-- What the floor of one percent gives back to the members below it. -/
def restored (share : Int) (tokens : List GroupToken) : Int :=
  total (fun token => max 0 (onePercent - (token.amount - dilution share token.amount))) tokens

theorem diluted_eq (share amount : Int) : diluted share amount =
    amount - dilution share amount + max 0 (onePercent - (amount - dilution share amount)) := by
  unfold diluted
  by_cases below : amount - dilution share amount < onePercent
  · rw [if_pos below]
    omega
  · rw [if_neg below]
    omega

theorem diluted_pos (share amount : Int) : 0 < diluted share amount := by
  have floor : onePercent ≤ diluted share amount := by
    unfold diluted
    split
    · exact Int.le_refl _
    · omega
  have positive : 0 < onePercent := by decide
  omega

/-- The members as a newcomer leaves them. -/
def dilute (share : Int) (tokens : List GroupToken) : List GroupToken :=
  tokens.map fun token => { token with amount := diluted share token.amount }

theorem dilute_owners (share : Int) (tokens : List GroupToken) :
    (dilute share tokens).map GroupToken.owner = tokens.map GroupToken.owner := by
  simp [dilute, Function.comp_def]

theorem totalShare_dilute (share : Int) (tokens : List GroupToken) :
    totalShare (dilute share tokens) =
      totalShare tokens - freed share tokens + restored share tokens := by
  induction tokens with
  | nil => rfl
  | cons token rest hypothesis =>
    simp only [totalShare, dilute, freed, restored, List.map_cons, total_cons] at hypothesis ⊢
    rw [hypothesis, diluted_eq]
    omega

/-- Whoever is not a member can be added, and gets what is left. -/
theorem addMember_eq {tokens : List GroupToken} {account : Name} (share : Int)
    (outside : ∀ token ∈ tokens, token.owner ≠ account) :
    addMember tokens account share "" = .ok (dilute share tokens ++
      [⟨account, fullShare - totalShare (dilute share tokens)⟩]) := by
  have fresh : ∀ token ∈ dilute share tokens, token.owner ≠ account := by
    intro token member
    obtain ⟨old, listed, rfl⟩ := List.mem_map.mp member
    exact outside old listed
  have whole : totalShare (dilute share tokens ++
      [⟨account, fullShare - totalShare (dilute share tokens)⟩]) = fullShare := by
    simp [totalShare]
  simp only [addMember, bind_ok_iff, require_ok_iff, pure_ok_iff]
  refine ⟨_, ?_, ⟨⟩, whole, rfl⟩
  rw [shareOut, if_neg (by decide)]
  simp only [createToken, bind_ok_iff, require_ok_iff, pure_ok_iff]
  exact ⟨⟨⟩, fresh, rfl⟩

/-- A newcomer gets a positive share exactly if the dilution frees more than the floor gives
    back. -/
theorem addMember_positive_iff {tokens after : List GroupToken} {account : Name} {share : Int}
    (whole : totalShare tokens = fullShare) (outside : ∀ token ∈ tokens, token.owner ≠ account)
    (added : addMember tokens account share "" = .ok after) :
    (∀ token ∈ after, 0 < token.amount) ↔ restored share tokens < freed share tokens := by
  rw [addMember_eq share outside, Except.ok.injEq] at added
  subst added
  have sum := totalShare_dilute share tokens
  rw [whole] at sum
  constructor
  · intro positive
    have own := positive _ (List.mem_append_right _ List.mem_cons_self)
    dsimp only at own
    omega
  · intro frees
    refine forall_append_singleton ?_ ?_
    · intro token member
      obtain ⟨old, _, rfl⟩ := List.mem_map.mp member
      exact diluted_pos share old.amount
    · dsimp only
      omega

theorem addMember_fair {tokens after : List GroupToken} {account : Name} {share : Int}
    (fair : Fair tokens) (outside : ∀ token ∈ tokens, token.owner ≠ account)
    (name : account ≠ "") (added : addMember tokens account share "" = .ok after)
    (positive : ∀ token ∈ after, 0 < token.amount) : Fair after := by
  rw [addMember_eq share outside, Except.ok.injEq] at added
  subst added
  constructor
  · exact positive
  · simp [totalShare]
  · refine nodup_append_fresh ?_ ?_
    · rw [dilute_owners]
      exact fair.distinct
    · intro token member
      obtain ⟨old, listed, rfl⟩ := List.mem_map.mp member
      exact outside old listed
  · refine forall_append_singleton ?_ name
    intro token member
    obtain ⟨old, listed, rfl⟩ := List.mem_map.mp member
    exact fair.named old listed

/-! ## Leaving -/

/-- The others as a leaving member leaves them, before the remainder. -/
def rescale (share : Int) (tokens : List GroupToken) : List GroupToken :=
  tokens.map fun token => { token with amount := scaled share token.amount }

theorem rescale_owners (share : Int) (tokens : List GroupToken) :
    (rescale share tokens).map GroupToken.owner = tokens.map GroupToken.owner := by
  simp [rescale, Function.comp_def]

/-- A positive amount does not shrink when a share of less than the whole leaves. -/
theorem scaled_pos {share amount : Int} (left : share < fullShare) (member : 0 ≤ share)
    (positive : 0 < amount) : 0 < scaled share amount := by
  have stays : 0 < fullShare - share := by omega
  have grows : amount * (fullShare - share) ≤ amount * fullShare :=
    Int.mul_le_mul_of_nonneg_left (by omega) positive.le
  have whole : (0 : Int) ≤ amount * fullShare := Int.mul_nonneg positive.le (by decide)
  have bound : amount ≤ scaled share amount := by
    rw [scaled, Int.tdiv_eq_ediv_of_nonneg whole]
    exact Int.le_ediv_of_mul_le stays grows
  omega

/-- The roundings never give out more than the whole. -/
theorem totalShare_rescale_le {share : Int} {tokens : List GroupToken} (left : share < fullShare)
    (positive : ∀ token ∈ tokens, 0 < token.amount) :
    totalShare (rescale share tokens) * (fullShare - share) ≤ totalShare tokens * fullShare := by
  induction tokens with
  | nil => simp [totalShare, rescale]
  | cons token rest hypothesis =>
    rw [List.forall_mem_cons] at positive
    have tail := hypothesis positive.2
    have whole : (0 : Int) ≤ token.amount * fullShare :=
      Int.mul_nonneg positive.1.le (by decide)
    have head : scaled share token.amount * (fullShare - share) ≤ token.amount * fullShare := by
      rw [scaled, Int.tdiv_eq_ediv_of_nonneg whole]
      exact Int.ediv_mul_le _ (by omega)
    simp only [totalShare, rescale, List.map_cons, total_cons, Int.add_mul] at tail ⊢
    exact Int.add_le_add head tail

/-- The walk ends at a member unless there is none. -/
theorem weakest_mem {tokens : List GroupToken} (positive : ∀ token ∈ tokens, 0 < token.amount)
    (some : tokens ≠ []) : (tokens.foldl weaker ("", 0)).1 ∈ tokens.map GroupToken.owner := by
  have walk : ∀ (rest seen : List GroupToken) (weakest : Name × Int),
      (∀ token ∈ rest, 0 < token.amount) →
      (0 < weakest.2 ∧ weakest.1 ∈ seen.map GroupToken.owner) ∨ (weakest.2 = 0 ∧ rest ≠ []) →
      (rest.foldl weaker weakest).1 ∈ (seen ++ rest).map GroupToken.owner := by
    intro rest
    induction rest with
    | nil =>
      intro seen weakest _ found
      rw [List.append_nil]
      rcases found with ⟨_, member⟩ | ⟨_, nonempty⟩
      · exact member
      · exact absurd rfl nonempty
    | cons token rest hypothesis =>
      intro seen weakest positive found
      rw [List.forall_mem_cons] at positive
      have next := hypothesis (seen ++ [token]) (weaker weakest token) positive.2 ?_
      · rw [List.append_assoc] at next
        exact next
      · refine .inl ?_
        unfold weaker
        by_cases smaller : weakest.2 = 0 ∨ token.amount < weakest.2
        · rw [if_pos smaller]
          exact ⟨positive.1, by simp⟩
        · rw [if_neg smaller]
          rcases found with ⟨above, member⟩ | ⟨zero, _⟩
          · refine ⟨above, ?_⟩
            rw [List.map_append]
            exact List.mem_append_left _ member
          · exact absurd (.inl zero) smaller
  have all := walk tokens [] ("", 0) positive (.inr ⟨rfl, some⟩)
  rwa [List.nil_append] at all

/-- The remainder completes shares that do not exceed the whole. -/
theorem giveRemainder_fair {tokens : List GroupToken}
    (positive : ∀ token ∈ tokens, 0 < token.amount) (some : tokens ≠ [])
    (distinct : (tokens.map GroupToken.owner).Nodup) (named : ∀ token ∈ tokens, token.owner ≠ "")
    (below : totalShare tokens ≤ fullShare) :
    ∃ after, giveRemainder tokens = .ok after ∧ Fair after := by
  have member := weakest_mem positive some
  obtain ⟨weakest, listed, owner⟩ := List.mem_map.mp member
  have name : (tokens.foldl weaker ("", 0)).1 ≠ "" := owner ▸ named weakest listed
  have found : tokens.find? (fun token => token.owner == weakest.owner) = Option.some weakest :=
    find?_of_nodup distinct listed
  unfold giveRemainder
  by_cases short : fullShare - totalShare tokens = 0
  · refine ⟨tokens, if_neg fun both => both.1 short, positive, ?_, distinct, named⟩
    omega
  · rw [if_pos ⟨short, name⟩, ← owner]
    simp only [getTokenByMember, found, expect, bind_ok_iff, pure_ok_iff]
    refine ⟨_, ⟨weakest, rfl, rfl⟩, ?_, ?_, ?_, ?_⟩
    · refine forall_modifyFirst positive ?_
      intro token _ above
      dsimp only
      omega
    · rw [totalShare, total_modifyFirst _ found]
      dsimp only
      rw [totalShare]
      omega
    · rw [map_modifyFirst]
      · exact distinct
      · exact fun _ => rfl
    · exact forall_modifyFirst named fun _ _ nonempty => nonempty

/-- A member of a fair group with at least two members can leave, and the group stays
    fair. -/
theorem removeMember_fair {tokens : List GroupToken} {token : GroupToken} (fair : Fair tokens)
    (many : 2 ≤ tokens.length) (member : token ∈ tokens) :
    ∃ after, removeMember tokens token.owner = .ok after ∧ Fair after := by
  have found : tokens.find? (fun other => other.owner == token.owner) = some token :=
    find?_of_nodup fair.distinct member
  have others : ∀ other ∈ tokens.eraseP (fun other => other.owner == token.owner),
      other ∈ tokens := fun other => List.mem_of_mem_eraseP
  have size : (tokens.eraseP fun other => other.owner == token.owner).length =
      tokens.length - 1 :=
    List.length_eraseP_of_mem member (by simp)
  have some : tokens.eraseP (fun other => other.owner == token.owner) ≠ [] := by
    intro empty
    rw [empty, List.length_nil] at size
    omega
  have sum : totalShare (tokens.eraseP fun other => other.owner == token.owner) =
      fullShare - token.amount := by
    rw [totalShare, total_eraseP _ found, ← fair.whole, totalShare]
  have left : 0 < totalShare (tokens.eraseP fun other => other.owner == token.owner) := by
    obtain ⟨other, rest, shape⟩ := List.exists_cons_of_ne_nil some
    have first := fair.positive other (others other (shape ▸ List.mem_cons_self))
    have later : 0 ≤ total GroupToken.amount rest := total_nonneg fun token listed =>
      (fair.positive token (others token (shape ▸ List.mem_cons_of_mem _ listed))).le
    rw [totalShare, shape, total_cons]
    omega
  have share : token.amount < fullShare := by omega
  have own := fair.positive token member
  have positive : ∀ other ∈ rescale token.amount
      (tokens.eraseP fun other => other.owner == token.owner), 0 < other.amount := by
    intro other listed
    obtain ⟨old, oldListed, rfl⟩ := List.mem_map.mp listed
    exact scaled_pos share own.le (fair.positive old (others old oldListed))
  have below : totalShare (rescale token.amount
      (tokens.eraseP fun other => other.owner == token.owner)) ≤ fullShare := by
    have bound := totalShare_rescale_le share fun other listed =>
      fair.positive other (others other listed)
    rw [sum, Int.mul_comm (fullShare - token.amount)] at bound
    exact Int.le_of_mul_le_mul_right bound (by omega)
  obtain ⟨after, given, fairAfter⟩ := giveRemainder_fair positive
    (by simpa [rescale] using some)
    (by rw [rescale_owners]; exact (List.eraseP_sublist.map _).nodup fair.distinct)
    (fun other listed => by
      obtain ⟨old, oldListed, rfl⟩ := List.mem_map.mp listed
      exact fair.named old (others old oldListed))
    below
  refine ⟨after, ?_, fairAfter⟩
  simp only [removeMember, getTokenByMember, found, expect, bind_ok_iff, require_ok_iff, pure_ok_iff]
  exact ⟨token, rfl, ⟨⟩, .inr share.ne, after, given, ⟨⟩, fairAfter.whole, rfl⟩

/-! ## Runs -/

theorem isMember_false_iff {tokens : List GroupToken} {member : Name} :
    isMember tokens member = false ↔ ∀ token ∈ tokens, token.owner ≠ member := by
  simp [isMember]

/-- An invitation moves a share from the inviter to the invited. -/
theorem addMember_invited {tokens after : List GroupToken} {account inviter : Name} {share : Int}
    (fair : Fair tokens) (name : account ≠ "") (invited : inviter ≠ "") (positive : 0 < share)
    (added : addMember tokens account share inviter = .ok after) : Fair after := by
  simp only [addMember, shareOut, if_pos invited, createToken, getTokenByMember, bind_ok_iff,
    require_ok_iff, expect_ok_iff, pure_ok_iff] at added
  obtain ⟨_, ⟨token, found, _, enough, _, fresh, rfl⟩, _, whole, rfl⟩ := added
  have floor : 0 < onePercent := by decide
  constructor
  · refine forall_append_singleton (forall_modifyFirst fair.positive ?_) positive
    intro other hit _
    have same : other = token := Option.some.inj (hit.symm.trans found)
    subst same
    dsimp only
    omega
  · exact whole
  · refine nodup_append_fresh ?_ fresh
    rw [map_modifyFirst]
    · exact fair.distinct
    · exact fun _ => rfl
  · exact forall_append_singleton (forall_modifyFirst fair.named fun _ _ nonempty => nonempty) name

/-- A group starts with fair shares. -/
theorem found_fair {creator : Name} {members : List Name} {start : List GroupToken}
    (few : members.length ≤ fullShare) (founded : found creator members = .ok start) :
    Fair start := by
  simp only [found, bind_ok_iff, require_ok_iff] at founded
  obtain ⟨_, names, first, created, invited⟩ := founded
  rw [List.forall_mem_cons] at names
  rw [addMember_eq fullShare (List.forall_mem_nil _), Except.ok.injEq] at created
  subst created
  have alone : Fair [⟨creator, fullShare⟩] := by
    constructor
    · exact List.forall_mem_singleton.mpr (show 0 < fullShare by decide)
    · rfl
    · exact List.nodup_singleton _
    · exact List.forall_mem_singleton.mpr names.1
  refine (foldlM_invariant (fun rest tokens => (∀ name ∈ rest, name ∈ members) ∧ Fair tokens) ?_
    ⟨fun name listed => List.mem_of_mem_filter listed, alone⟩ invited).2
  rintro member rest tokens next ⟨listed, fair⟩ added
  rw [List.forall_mem_cons] at listed
  have some : 0 < members.length := List.length_pos_of_mem listed.1
  have share : 0 < fullShare / (members.length : Int) := by
    refine Int.le_ediv_of_mul_le (by omega) ?_
    omega
  exact ⟨listed.2, addMember_invited fair (names.2 member listed.1) names.1 share added⟩

/-- The shares of a group are positive and add up to the whole, whoever is not a member can
    join, and with at least two members each of them can leave. -/
structure WellShared (tokens : List GroupToken) : Prop where
  positive : tokens ≠ [] → ∀ token ∈ tokens, 0 < token.amount
  whole : tokens ≠ [] → totalShare tokens = fullShare
  joinable : ∀ member, isMember tokens member = false →
    ∃ after, addMember tokens member (fullShare / (tokens.length + 1)) "" = .ok after
  leavable : 2 ≤ tokens.length → ∀ member, isMember tokens member = true →
    ∃ after, removeMember tokens member = .ok after

/-- The dilution for a newcomer frees more than the floor of one percent gives back. -/
def Membership.Frees (tokens : List GroupToken) : Membership → Prop
  | join member => member ≠ "" → isMember tokens member = false →
    restored (fullShare / (tokens.length + 1)) tokens < freed (fullShare / (tokens.length + 1)) tokens
  | leave _ => True

theorem Fair.wellShared {tokens : List GroupToken} (fair : Fair tokens) : WellShared tokens where
  positive _ := fair.positive
  whole _ := fair.whole
  joinable member outside := ⟨_, addMember_eq _ (isMember_false_iff.mp outside)⟩
  leavable many member inside := by
    obtain ⟨token, listed, owner⟩ := List.any_eq_true.mp inside
    obtain ⟨after, removed, _⟩ := removeMember_fair fair many listed
    rw [beq_iff_eq] at owner
    exact ⟨after, owner ▸ removed⟩

/-- The last member cannot leave. -/
theorem removeMember_many {tokens after : List GroupToken} {member : Name}
    (removed : removeMember tokens member = .ok after) : 2 ≤ tokens.length := by
  simp only [removeMember, getTokenByMember, bind_ok_iff, require_ok_iff, expect_ok_iff,
    pure_ok_iff] at removed
  obtain ⟨token, found, _, _, remaining, given, _, whole, rfl⟩ := removed
  by_contra few
  have hit : (token.owner == member) = true := by simpa using List.find?_some found
  have size : (tokens.eraseP fun token => token.owner == member).length = tokens.length - 1 :=
    List.length_eraseP_of_mem (List.mem_of_find?_eq_some found) hit
  have none : tokens.eraseP (fun token => token.owner == member) = [] := by
    rw [← List.length_eq_zero_iff]
    omega
  rw [none, List.map_nil, giveRemainder, if_neg fun both => both.2 rfl, pure_ok_iff] at given
  rw [← given] at whole
  exact absurd whole (by decide)

/-- What a membership operation needs to leave a fair group well shared. -/
theorem Membership.frees_iff {tokens : List GroupToken} (op : Membership) (fair : Fair tokens) :
    op.Frees tokens ↔ ∀ next, op.apply tokens = .ok next → WellShared next := by
  cases op with
  | join member =>
    constructor
    · intro frees next applied
      simp only [apply, bind_ok_iff, require_ok_iff] at applied
      obtain ⟨_, name, _, outside, added⟩ := applied
      have others := isMember_false_iff.mp outside
      have positive := (addMember_positive_iff fair.whole others added).mpr (frees name outside)
      exact (addMember_fair fair others name added positive).wellShared
    · intro shared name outside
      have others := isMember_false_iff.mp outside
      obtain ⟨next, added⟩ : ∃ next,
          addMember tokens member (fullShare / (tokens.length + 1)) "" = .ok next :=
        ⟨_, addMember_eq _ others⟩
      have applied : apply tokens (.join member) = .ok next := by
        simp only [apply, bind_ok_iff, require_ok_iff]
        exact ⟨⟨⟩, name, ⟨⟩, outside, added⟩
      refine (addMember_positive_iff fair.whole others added).mp ((shared next applied).positive ?_)
      rw [addMember_eq _ others, Except.ok.injEq] at added
      rw [← added]
      exact List.append_ne_nil_of_right_ne_nil _ (List.cons_ne_nil _ _)
  | leave member =>
    refine ⟨fun _ next applied => ?_, fun _ => trivial⟩
    simp only [apply, bind_ok_iff, require_ok_iff] at applied
    obtain ⟨_, inside, removed⟩ := applied
    obtain ⟨token, listed, owner⟩ := List.any_eq_true.mp inside
    obtain ⟨after, result, fairAfter⟩ := removeMember_fair fair (removeMember_many removed) listed
    rw [beq_iff_eq] at owner
    rw [owner, removed, Except.ok.injEq] at result
    exact result ▸ fairAfter.wellShared

/-- A membership operation that leaves the group well shared leaves it fair. -/
theorem Membership.apply_fair {tokens next : List GroupToken} (op : Membership) (fair : Fair tokens)
    (applied : op.apply tokens = .ok next) (shared : WellShared next) : Fair next := by
  cases op with
  | join member =>
    simp only [apply, bind_ok_iff, require_ok_iff] at applied
    obtain ⟨_, name, _, outside, added⟩ := applied
    have others := isMember_false_iff.mp outside
    refine addMember_fair fair others name added (shared.positive ?_)
    rw [addMember_eq _ others, Except.ok.injEq] at added
    rw [← added]
    exact List.append_ne_nil_of_right_ne_nil _ (List.cons_ne_nil _ _)
  | leave member =>
    simp only [apply, bind_ok_iff, require_ok_iff] at applied
    obtain ⟨_, inside, removed⟩ := applied
    obtain ⟨token, listed, owner⟩ := List.any_eq_true.mp inside
    obtain ⟨after, result, fairAfter⟩ := removeMember_fair fair (removeMember_many removed) listed
    rw [beq_iff_eq] at owner
    rw [owner, removed, Except.ok.injEq] at result
    exact result ▸ fairAfter

/-- Every state of a run of joins and leaves is well shared exactly if in each join the
    dilution frees more than the floor gives back. -/
theorem membership_run_wellShared_iff (creator : Name) (members : List Name)
    (start : List GroupToken) (ops : List Membership) (few : members.length ≤ fullShare)
    (founded : found creator members = .ok start) :
    Visits Membership.apply WellShared start ops ↔
      Along Membership.apply (fun tokens op => op.Frees tokens) start ops :=
  visits_iff_along Fair (fun _ => Fair.wellShared) (fun op _ fair => op.frees_iff fair)
    (fun op _ _ fair applied shared => op.apply_fair fair applied shared) ops start
    (found_fair few founded)

instance (tokens : List GroupToken) : (op : Membership) → Decidable (op.Frees tokens)
  | .join _ => inferInstanceAs (Decidable (_ → _ → _))
  | .leave _ => inferInstanceAs (Decidable True)

/-- A group of three in which one leaves. -/
theorem membership_run_wellShared_sample :
    Visits Membership.apply WellShared [⟨"alice", 10000⟩]
      [.join "bob", .join "carol", .leave "alice"] := by
  have frees : passes Membership.apply (fun tokens op => decide (op.Frees tokens))
      [⟨"alice", 10000⟩] [.join "bob", .join "carol", .leave "alice"] = true := by decide +kernel
  exact (membership_run_wellShared_iff "alice" [] _ _ (by decide) rfl).mpr
    (Along.of_passes (fun _ _ => of_decide_eq_true) frees)

/-- The names of further members. -/
def Sample.member (number : Nat) : Name :=
  String.ofList (List.replicate (number + 1) 'm')

/-- The seventy-eighth member of a group gets a negative share. -/
theorem membership_run_wellShared_fails : ∃ tokens,
    (do
      let start ← found "alice" []
      ((List.range 77).map fun number => Membership.join (Sample.member number)).foldlM
        Membership.apply start) = .ok tokens ∧ ¬ WellShared tokens := by
  obtain ⟨tokens, ran, negative⟩ := exists_ok_of_any (do
      let start ← found "alice" []
      ((List.range 77).map fun number => Membership.join (Sample.member number)).foldlM
        Membership.apply start)
    (fun tokens => tokens.any fun token => decide (token.amount < 0)) (by decide +kernel)
  refine ⟨tokens, ran, fun shared => ?_⟩
  obtain ⟨token, member, below⟩ := List.any_eq_true.mp negative
  have above := shared.positive (List.ne_nil_of_mem member) token member
  rw [decide_eq_true_eq] at below
  omega

end DeipChain.Research
