import DeipChain.Protocol.Derivation
import DeipChain.Protocol.RequiredSignatures

/-!
# The keys that a check asks for

A check marks a key as used when it asks for it and there is a signature, or one could be made with
an available key. It asks for a key only as long as the weights it has counted are below the
threshold, so with more keys it asks for fewer. Where accounts are not nested beyond the depth that
is followed, what a check answers and which keys it asks for depends on the signing keys alone and
not on the checks before it (`checkAuthorityFor_resolves`).
-/
namespace DeipChain.Protocol

open Result

variable {Name Key : Type}

/-! ## Loops over weighted entries -/

section Loops

variable {A : Type}

/-- A loop over the entries looks at one of them before the counted weights reach the threshold. -/
def Visits (counted : Set A) (threshold : Nat) (sought : A) : List (A × Nat) → Nat → Prop
  | [], _ => False
  | (first, weight) :: rest, total =>
    first = sought ∨
      first ∈ counted ∧ total + weight < threshold ∧
        Visits counted threshold sought rest (total + weight) ∨
      first ∉ counted ∧ Visits counted threshold sought rest total

/-- The counted weights reach the threshold within the loop. -/
def Reaches (counted : Set A) (threshold : Nat) : List (A × Nat) → Nat → Prop
  | [], _ => False
  | (first, weight) :: rest, total =>
    first ∈ counted ∧ (threshold ≤ total + weight ∨
        Reaches counted threshold rest (total + weight)) ∨
      first ∉ counted ∧ Reaches counted threshold rest total

variable {counted wider : Set A} {threshold : Nat} {sought : A} {entries : List (A × Nat)}

theorem visits_cons_of_not_mem {first : A} {weight total : Nat} (outside : first ∉ counted) :
    Visits counted threshold sought ((first, weight) :: entries) total ↔
      first = sought ∨ Visits counted threshold sought entries total := by
  rw [Visits]
  simp only [outside, false_and, false_or, not_false_eq_true, true_and]

theorem visits_cons_of_lt {first : A} {weight total : Nat} (inside : first ∈ counted)
    (less : total + weight < threshold) :
    Visits counted threshold sought ((first, weight) :: entries) total ↔
      first = sought ∨ Visits counted threshold sought entries (total + weight) := by
  rw [Visits]
  simp only [inside, less, true_and, not_true_eq_false, false_and, or_false]

theorem visits_cons_of_le {first : A} {weight total : Nat} (inside : first ∈ counted)
    (enough : threshold ≤ total + weight) :
    Visits counted threshold sought ((first, weight) :: entries) total ↔ first = sought := by
  rw [Visits]
  simp only [inside, Nat.not_lt.mpr enough, not_true_eq_false, false_and, and_false, or_false]

theorem reaches_cons_of_not_mem {first : A} {weight total : Nat} (outside : first ∉ counted) :
    Reaches counted threshold ((first, weight) :: entries) total ↔
      Reaches counted threshold entries total := by
  rw [Reaches]
  simp only [outside, false_and, false_or, not_false_eq_true, true_and]

theorem reaches_cons_of_mem {first : A} {weight total : Nat} (inside : first ∈ counted) :
    Reaches counted threshold ((first, weight) :: entries) total ↔
      threshold ≤ total + weight ∨ Reaches counted threshold entries (total + weight) := by
  rw [Reaches]
  simp only [inside, true_and, not_true_eq_false, false_and, or_false]

theorem Visits.mem {total : Nat} (visits : Visits counted threshold sought entries total) :
    ∃ weight, (sought, weight) ∈ entries := by
  induction entries generalizing total with
  | nil => exact visits.elim
  | cons entry rest hypothesis =>
    obtain ⟨first, weight⟩ := entry
    rcases visits with rfl | ⟨-, -, behind⟩ | ⟨-, behind⟩
    · exact ⟨weight, List.mem_cons_self⟩
    · obtain ⟨found, member⟩ := hypothesis behind
      exact ⟨found, List.mem_cons_of_mem _ member⟩
    · obtain ⟨found, member⟩ := hypothesis behind
      exact ⟨found, List.mem_cons_of_mem _ member⟩

/-- The more is counted, the less is looked at. -/
theorem Visits.anti (grows : counted ⊆ wider) {total more : Nat} (later : total ≤ more)
    (visits : Visits wider threshold sought entries more) :
    Visits counted threshold sought entries total := by
  induction entries generalizing total more with
  | nil => exact visits
  | cons entry rest hypothesis =>
    obtain ⟨first, weight⟩ := entry
    rcases visits with here | ⟨inside, low, behind⟩ | ⟨outside, behind⟩
    · exact .inl here
    · by_cases counts : first ∈ counted
      · exact .inr (.inl ⟨counts, by omega, hypothesis (by omega) behind⟩)
      · exact .inr (.inr ⟨counts, hypothesis (by omega) behind⟩)
    · exact .inr (.inr ⟨fun counts => outside (grows counts), hypothesis later behind⟩)

theorem Reaches.mono (grows : counted ⊆ wider) {total more : Nat} (later : total ≤ more)
    (reaches : Reaches counted threshold entries total) :
    Reaches wider threshold entries more := by
  induction entries generalizing total more with
  | nil => exact reaches
  | cons entry rest hypothesis =>
    obtain ⟨first, weight⟩ := entry
    rcases reaches with ⟨inside, enough | behind⟩ | ⟨outside, behind⟩
    · exact .inl ⟨grows inside, .inl (by omega)⟩
    · exact .inl ⟨grows inside, .inr (hypothesis (by omega) behind)⟩
    · by_cases counts : first ∈ wider
      · exact .inl ⟨counts, .inr (hypothesis (by omega) behind)⟩
      · exact .inr ⟨counts, hypothesis later behind⟩

/-- The weights of all that is counted are no fewer than those that reach the threshold. -/
theorem Reaches.enough {total : Nat} (reaches : Reaches counted threshold entries total) :
    threshold ≤ total + weightOf entries counted := by
  induction entries generalizing total with
  | nil => exact reaches.elim
  | cons entry rest hypothesis =>
    obtain ⟨first, weight⟩ := entry
    rcases reaches with ⟨inside, enough | behind⟩ | ⟨outside, behind⟩
    · rw [weightOf_cons_of_mem inside]
      omega
    · have bound := hypothesis behind
      rw [weightOf_cons_of_mem inside]
      omega
    · rw [weightOf_cons_of_not_mem outside]
      exact hypothesis behind

/-- What the loop looks at and counts is enough, if all entries are. -/
theorem enough_of_visits {some : Set A} {total : Nat}
    (looked : ∀ a, Visits counted threshold a entries total → a ∈ counted → a ∈ some)
    (enough : threshold ≤ total + weightOf entries counted) :
    threshold ≤ total + weightOf entries some := by
  induction entries generalizing total with
  | nil => exact enough
  | cons entry rest hypothesis =>
    obtain ⟨first, weight⟩ := entry
    by_cases inside : first ∈ counted
    · have kept : first ∈ some := looked first (.inl rfl) inside
      rw [weightOf_cons_of_mem inside] at enough
      rw [weightOf_cons_of_mem kept]
      by_cases high : threshold ≤ total + weight
      · omega
      · have less : total + weight < threshold := Nat.not_le.mp high
        have behind := hypothesis
          (fun a visits => looked a (.inr (.inl ⟨inside, less, visits⟩))) (by omega)
        omega
    · have behind := hypothesis (fun a visits => looked a (.inr (.inr ⟨inside, visits⟩)))
        (weightOf_cons_of_not_mem inside ▸ enough)
      exact behind.trans (Nat.add_le_add_left (weightOf_cons_le first weight rest some) total)

/-- A loop that does not reach the threshold looks at every entry. -/
theorem visits_of_not_reaches {total : Nat} (short : ¬ Reaches counted threshold entries total)
    (member : sought ∈ entries.map Prod.fst) :
    Visits counted threshold sought entries total := by
  induction entries generalizing total with
  | nil => cases member
  | cons entry rest hypothesis =>
    obtain ⟨first, weight⟩ := entry
    rcases List.mem_cons.mp member with same | behind
    · exact .inl same.symm
    · by_cases inside : first ∈ counted
      · rw [reaches_cons_of_mem inside, not_or] at short
        exact .inr (.inl ⟨inside, by omega, hypothesis short.2 behind⟩)
      · rw [reaches_cons_of_not_mem inside] at short
        exact .inr (.inr ⟨inside, hypothesis short behind⟩)

/-- Counted entries that are kept weigh the same. -/
theorem weightOf_le_of_mem {some : Set A}
    (kept : ∀ a ∈ entries.map Prod.fst, a ∈ counted → a ∈ some) :
    weightOf entries counted ≤ weightOf entries some := by
  induction entries with
  | nil => exact Nat.le_refl _
  | cons entry rest hypothesis =>
    obtain ⟨first, weight⟩ := entry
    have behind := hypothesis fun a member => kept a (List.mem_cons_of_mem _ member)
    by_cases inside : first ∈ counted
    · rw [weightOf_cons_of_mem inside, weightOf_cons_of_mem (kept first List.mem_cons_self inside)]
      omega
    · rw [weightOf_cons_of_not_mem inside]
      exact behind.trans (weightOf_cons_le first weight rest some)

/-- Below the threshold, a weight that fits is added as it is. -/
theorem FitsFrom.addWeight {total weight : Nat} {weights : List Nat}
    (fits : FitsFrom threshold total (weight :: weights)) (low : total < threshold ∨ threshold = 0) :
    (threshold ≤ addWeight total weight ↔ threshold ≤ total + weight) ∧
      (total + weight < threshold → addWeight total weight = total + weight) := by
  rcases low with low | zero
  · have same : Protocol.addWeight total weight = total + weight := Nat.mod_eq_of_lt (fits.next low)
    rw [same]
    exact ⟨Iff.rfl, fun _ => rfl⟩
  · constructor
    · constructor
      · exact fun _ => by omega
      · exact fun _ => by omega
    · intro less
      omega

end Loops

/-! ## Keys and accounts -/

section Asked

variable {accounts : Name → Option (AuthorityPack Name Key)} {keys more : List Key}

theorem weightOf_keys_mono (grows : keys ⊆ more) (entries : List (Key × Nat)) :
    weightOf entries {key | key ∈ keys} ≤ weightOf entries {key | key ∈ more} :=
  weightOf_mono (fun _ member => grows member) entries

theorem Enough.keys_mono {approving : Set Name} {auth : Authority Name Key} (grows : keys ⊆ more)
    (enough : Enough keys approving auth) : Enough more approving auth := by
  have wider := weightOf_keys_mono grows auth.keyAuths
  unfold Enough at *
  omega

/-- With more keys more accounts approve. -/
theorem approvers_keys_mono (grows : keys ⊆ more) {approvals : Set Name} :
    approvers accounts keys approvals ⊆ approvers accounts more approvals := by
  apply (rule accounts keys approvals).lfp_le
  rintro name (given | ⟨pack, known, active | owner⟩)
  · exact approvals_subset_approvers accounts more approvals given
  · exact closedUnder_approvers accounts more approvals name pack known
      (.inl (active.keys_mono grows))
  · exact closedUnder_approvers accounts more approvals name pack known
      (.inr (owner.keys_mono grows))

theorem Derivable.keys_mono (grows : keys ⊆ more) {approvals : Set Name}
    {auth : Authority Name Key} (derivable : Derivable accounts keys approvals auth) :
    Derivable accounts more approvals auth :=
  (Enough.keys_mono grows derivable).mono (approvers_keys_mono grows)

/-- An account approves with one of its authorities. -/
theorem mem_approvers {name : Name} {pack : AuthorityPack Name Key}
    (known : accounts name = some pack) :
    name ∈ approvers accounts keys ∅ ↔
      Derivable accounts keys ∅ pack.active ∨ Derivable accounts keys ∅ pack.owner := by
  rw [← rule_approvers, mem_rule]
  constructor
  · rintro (given | ⟨other, same, enough⟩)
    · exact given.elim
    · rw [known, Option.some.injEq] at same
      exact same ▸ enough
  · exact fun enough => .inr ⟨pack, known, enough⟩

/-- A check of an authority asks for a key: for one of its own, or for one of an account that its
keys are not enough without. Of an account the owner authority is checked when the active one is not
satisfied. -/
inductive Asked (accounts : Name → Option (AuthorityPack Name Key)) (keys : List Key) :
    Authority Name Key → Key → Prop
  | key {auth : Authority Name Key} {sought : Key}
      (visits : Visits {key | key ∈ keys} auth.weightThreshold sought auth.keyAuths 0) :
      Asked accounts keys auth sought
  | active {auth : Authority Name Key} {sought : Key} {name : Name}
      {pack : AuthorityPack Name Key}
      (short : ¬ Reaches {key | key ∈ keys} auth.weightThreshold auth.keyAuths 0)
      (visits : Visits (approvers accounts keys ∅) auth.weightThreshold name auth.accountAuths
        (weightOf auth.keyAuths {key | key ∈ keys}))
      (known : accounts name = some pack) (asked : Asked accounts keys pack.active sought) :
      Asked accounts keys auth sought
  | owner {auth : Authority Name Key} {sought : Key} {name : Name}
      {pack : AuthorityPack Name Key}
      (short : ¬ Reaches {key | key ∈ keys} auth.weightThreshold auth.keyAuths 0)
      (visits : Visits (approvers accounts keys ∅) auth.weightThreshold name auth.accountAuths
        (weightOf auth.keyAuths {key | key ∈ keys}))
      (known : accounts name = some pack) (missing : ¬ Derivable accounts keys ∅ pack.active)
      (asked : Asked accounts keys pack.owner sought) : Asked accounts keys auth sought

/-- With more keys fewer are asked for. -/
theorem Asked.anti (grows : keys ⊆ more) {auth : Authority Name Key} {sought : Key}
    (asked : Asked accounts more auth sought) : Asked accounts keys auth sought := by
  have wider : {key | key ∈ keys} ⊆ {key | key ∈ more} := fun _ member => grows member
  have bound (auth : Authority Name Key) := weightOf_keys_mono grows auth.keyAuths
  induction asked with
  | key visits => exact .key (visits.anti wider (Nat.le_refl 0))
  | active short visits known _ hypothesis =>
    exact .active (fun reaches => short (reaches.mono wider (Nat.le_refl 0)))
      (visits.anti (approvers_keys_mono grows) (bound _)) known hypothesis
  | owner short visits known missing _ hypothesis =>
    exact .owner (fun reaches => short (reaches.mono wider (Nat.le_refl 0)))
      (visits.anti (approvers_keys_mono grows) (bound _)) known
      (fun derivable => missing (derivable.keys_mono grows)) hypothesis

/-- A check of an account asks for a key. -/
def AskedOf (accounts : Name → Option (AuthorityPack Name Key)) (keys : List Key) (name : Name)
    (sought : Key) : Prop :=
  ∃ pack, accounts name = some pack ∧ (Asked accounts keys pack.active sought ∨
    ¬ Derivable accounts keys ∅ pack.active ∧ Asked accounts keys pack.owner sought)

theorem AskedOf.anti (grows : keys ⊆ more) {name : Name} {sought : Key}
    (asked : AskedOf accounts more name sought) : AskedOf accounts keys name sought := by
  obtain ⟨pack, known, active | ⟨missing, owner⟩⟩ := asked
  · exact ⟨pack, known, .inl (active.anti grows)⟩
  · exact ⟨pack, known, .inr ⟨fun derivable => missing (derivable.keys_mono grows),
      owner.anti grows⟩⟩

/-- What an authority asks for, by its keys and its accounts. -/
theorem asked_iff {auth : Authority Name Key} {sought : Key} :
    Asked accounts keys auth sought ↔
      Visits {key | key ∈ keys} auth.weightThreshold sought auth.keyAuths 0 ∨
        ¬ Reaches {key | key ∈ keys} auth.weightThreshold auth.keyAuths 0 ∧
          ∃ name, Visits (approvers accounts keys ∅) auth.weightThreshold name auth.accountAuths
              (weightOf auth.keyAuths {key | key ∈ keys}) ∧ AskedOf accounts keys name sought := by
  constructor
  · rintro (visits | ⟨short, visits, known, asked⟩ | ⟨short, visits, known, missing, asked⟩)
    · exact .inl visits
    · exact .inr ⟨short, _, visits, _, known, .inl asked⟩
    · exact .inr ⟨short, _, visits, _, known, .inr ⟨missing, asked⟩⟩
  · rintro (visits | ⟨short, name, visits, pack, known, asked | ⟨missing, asked⟩⟩)
    · exact .key visits
    · exact .active short visits known asked
    · exact .owner short visits known missing asked

end Asked

/-! ## What a check does -/

section Resolves

variable (accounts : Name → Option (AuthorityPack Name Key)) (keys available : List Key)

/-- The keys that are marked as used. -/
def SignState.used (state : SignState Name Key) : Set Key :=
  {key | (key, true) ∈ state.providedSignatures}

/-- The state has the signing keys, as signatures or available, and the accounts it remembers
approve with keys that have been used. -/
structure SignState.Kept (state : SignState Name Key) : Prop where
  signing : ∀ key, key ∈ keys ↔ key ∈ state.providedSignatures.map Prod.fst ∨ key ∈ available
  marked : ∀ entry ∈ state.providedSignatures, entry.1 ∈ state.used → entry.2 = true
  remembered : ∀ name ∈ state.approvedBy, name ∈ approvers accounts keys ∅ ∧
    ∀ key ∈ keys, AskedOf accounts keys name key → key ∈ state.used

/-- Of the signing keys, those that have been asked for are marked. -/
structure Moves (state next : SignState Name Key) (asked : Key → Prop) : Prop where
  kept : next.Kept accounts keys available
  used : ∀ key, key ∈ next.used ↔ key ∈ state.used ∨ key ∈ keys ∧ asked key

/-- The answer of a check and the keys it asks for do not depend on the state. -/
def Resolves (property : Prop) (asked : Key → Prop) (check : Check Name Key) : Prop :=
  ∀ state : SignState Name Key, state.Kept accounts keys available →
    ∃ passed next, check state = .ok (passed, next) ∧ (passed = true ↔ property) ∧
      Moves accounts keys available state next asked

variable {accounts keys available} {state middle next : SignState Name Key}
  {asked later : Key → Prop}

theorem Moves.refl (kept : state.Kept accounts keys available) :
    Moves accounts keys available state state (fun _ => False) where
  kept := kept
  used key := by simp

theorem Moves.trans (first : Moves accounts keys available state middle asked)
    (second : Moves accounts keys available middle next later) :
    Moves accounts keys available state next (fun key => asked key ∨ later key) where
  kept := second.kept
  used key := by
    rw [second.used, first.used]
    tauto

theorem Moves.congr (moves : Moves accounts keys available state next asked)
    (same : ∀ key, key ∈ keys → key ∉ state.used → (asked key ↔ later key)) :
    Moves accounts keys available state next later where
  kept := moves.kept
  used key := by
    rw [moves.used]
    have agree := same key
    tauto

theorem Moves.grows (moves : Moves accounts keys available state next asked) :
    state.used ⊆ next.used := fun key member => (moves.used key).mpr (.inl member)

/-- What is remembered stays so when more keys are used. -/
theorem SignState.Kept.of_grows (kept : state.Kept accounts keys available)
    (signing : ∀ key, key ∈ keys ↔ key ∈ next.providedSignatures.map Prod.fst ∨ key ∈ available)
    (marked : ∀ entry ∈ next.providedSignatures, entry.1 ∈ next.used → entry.2 = true)
    (same : next.approvedBy = state.approvedBy) (grows : state.used ⊆ next.used) :
    next.Kept accounts keys available where
  signing := signing
  marked := marked
  remembered name member := by
    rw [same] at member
    obtain ⟨approves, used⟩ := kept.remembered name member
    exact ⟨approves, fun key inside asked => grows (used key inside asked)⟩

theorem SignState.Kept.remember (kept : state.Kept accounts keys available) {name : Name}
    (approves : name ∈ approvers accounts keys ∅)
    (used : ∀ key ∈ keys, AskedOf accounts keys name key → key ∈ state.used) :
    SignState.Kept accounts keys available
      { state with approvedBy := name :: state.approvedBy } where
  signing := kept.signing
  marked := kept.marked
  remembered other member := by
    rcases List.mem_cons.mp member with rfl | old
    · exact ⟨approves, used⟩
    · exact kept.remembered other old

variable [DecidableEq Key]

theorem signedByFor_moves (kept : state.Kept accounts keys available) (sought : Key) :
    ∃ signed next, signedByFor available sought state = (signed, next) ∧
      (signed = true ↔ sought ∈ keys) ∧
      Moves accounts keys available state next (fun key => key = sought) := by
  by_cases provided : sought ∈ state.providedSignatures.map Prod.fst
  · have signs : sought ∈ keys := (kept.signing sought).mpr (.inl provided)
    let marked : SignState Name Key := { state with
      providedSignatures :=
        state.providedSignatures.map (fun entry => (entry.1, entry.2 || entry.1 = sought)) }
    have used (key : Key) : key ∈ marked.used ↔ key ∈ state.used ∨ key ∈ keys ∧ key = sought := by
      constructor
      · intro member
        obtain ⟨⟨other, flag⟩, inside, same⟩ := List.mem_map.mp member
        simp only [Prod.mk.injEq, Bool.or_eq_true, decide_eq_true_eq] at same
        obtain ⟨rfl, rfl | rfl⟩ := same
        · exact .inl inside
        · exact .inr ⟨signs, rfl⟩
      · rintro (old | ⟨-, rfl⟩)
        · exact List.mem_map.mpr ⟨(key, true), old, by simp⟩
        · obtain ⟨entry, inside, rfl⟩ := List.mem_map.mp provided
          exact List.mem_map.mpr ⟨entry, inside, by simp⟩
    refine ⟨true, marked, ?_, ⟨fun _ => signs, fun _ => rfl⟩, ?_, used⟩
    · rw [signedByFor, signedBy, if_pos provided]
    · refine kept.of_grows ?_ ?_ rfl (fun key old => (used key).mpr (.inl old))
      · intro key
        rw [kept.signing, List.map_map]
        rfl
      · rintro entry member inside
        obtain ⟨before, old, rfl⟩ := List.mem_map.mp member
        rcases (used before.1).mp inside with earlier | ⟨-, same⟩
        · simp [kept.marked before old earlier]
        · simp [same]
  · by_cases free : sought ∈ available
    · have signs : sought ∈ keys := (kept.signing sought).mpr (.inr free)
      let added : SignState Name Key := { state with
        providedSignatures := state.providedSignatures ++ [(sought, true)] }
      have used (key : Key) : key ∈ added.used ↔ key ∈ state.used ∨ key ∈ keys ∧ key = sought := by
        constructor
        · intro member
          rcases List.mem_append.mp member with old | new
          · exact .inl old
          · rw [List.mem_singleton, Prod.mk.injEq] at new
            exact .inr ⟨new.1 ▸ signs, new.1⟩
        · rintro (old | ⟨-, rfl⟩)
          · exact List.mem_append_left _ old
          · exact List.mem_append_right _ (List.mem_singleton.mpr rfl)
      refine ⟨true, added, ?_, ⟨fun _ => signs, fun _ => rfl⟩, ?_, used⟩
      · rw [signedByFor, signedBy, if_neg provided]
        exact if_pos free
      · refine kept.of_grows ?_ ?_ rfl (fun key old => (used key).mpr (.inl old))
        · intro key
          rw [kept.signing, List.map_append, List.mem_append, List.map_singleton,
            List.mem_singleton]
          constructor
          · tauto
          · rintro ((old | rfl) | other)
            · exact .inl old
            · exact .inr free
            · exact .inr other
        · intro entry member inside
          rcases List.mem_append.mp member with old | new
          · rcases (used entry.1).mp inside with earlier | ⟨-, same⟩
            · exact kept.marked entry old earlier
            · exact absurd (same ▸ List.mem_map_of_mem old) provided
          · rw [List.mem_singleton.mp new]
    · have unsigned : sought ∉ keys := fun signs =>
        ((kept.signing sought).mp signs).elim provided free
      refine ⟨false, state, ?_, iff_of_false Bool.false_ne_true unsigned, ?_⟩
      · rw [signedByFor, signedBy, if_neg provided]
        exact if_neg free
      · refine (Moves.refl kept).congr fun key inside _ => ?_
        constructor
        · exact False.elim
        · exact fun same => unsigned (same ▸ inside)

/-- The loop over the keys reaches the threshold or counts them all. -/
theorem checkKeysFor_moves {threshold total : Nat} {entries : List (Key × Nat)} {more : List Nat}
    (kept : state.Kept accounts keys available)
    (fits : FitsFrom threshold total (entries.map Prod.snd ++ more))
    (low : total < threshold ∨ threshold = 0) :
    ∃ reached final next, checkKeysFor available threshold entries total state =
        (reached, final, next) ∧
      (reached = true ↔ Reaches {key | key ∈ keys} threshold entries total) ∧
      (reached = false → final = total + weightOf entries {key | key ∈ keys} ∧
        FitsFrom threshold final more ∧ (final < threshold ∨ threshold = 0)) ∧
      Moves accounts keys available state next
        (fun key => Visits {key | key ∈ keys} threshold key entries total) := by
  induction entries generalizing total state with
  | nil =>
    refine ⟨false, total, state, rfl, iff_of_false Bool.false_ne_true id, ?_, .refl kept⟩
    exact fun _ => ⟨by simp, fits, low⟩
  | cons entry rest hypothesis =>
    obtain ⟨first, weight⟩ := entry
    obtain ⟨signed, asked, ran, signs, moved⟩ := signedByFor_moves kept first
    cases signed with
    | false =>
      have outside : first ∉ {key | key ∈ keys} := fun inside => by cases signs.mpr inside
      obtain ⟨reached, final, next, looped, reaches, counted, further⟩ :=
        hypothesis moved.kept fits.skip low
      refine ⟨reached, final, next, ?_, ?_, ?_, ?_⟩
      · rw [checkKeysFor, ran]
        exact looped
      · rw [reaches, reaches_cons_of_not_mem outside]
      · rw [weightOf_cons_of_not_mem outside]
        exact counted
      · refine (moved.trans further).congr fun key _ _ => ?_
        rw [visits_cons_of_not_mem outside, eq_comm]
    | true =>
      have inside : first ∈ {key | key ∈ keys} := signs.mp rfl
      obtain ⟨compared, exact_⟩ := fits.addWeight low
      by_cases enough : threshold ≤ total + weight
      · refine ⟨true, addWeight total weight, asked, ?_, ?_, ?_, ?_⟩
        · rw [checkKeysFor, ran]
          exact if_pos (compared.mpr enough)
        · exact iff_of_true rfl (.inl ⟨inside, .inl enough⟩)
        · intro impossible
          cases impossible
        · refine moved.congr fun key _ _ => ?_
          rw [visits_cons_of_le inside enough, eq_comm]
      · have less : total + weight < threshold := Nat.not_le.mp enough
        obtain ⟨reached, final, next, looped, reaches, counted, further⟩ :=
          hypothesis moved.kept fits.count (.inl less)
        refine ⟨reached, final, next, ?_, ?_, ?_, ?_⟩
        · rw [checkKeysFor, ran]
          refine (if_neg (fun more => enough (compared.mp more))).trans ?_
          rw [exact_ less]
          exact looped
        · rw [reaches, reaches_cons_of_mem inside]
          exact (or_iff_right enough).symm
        · rw [weightOf_cons_of_mem inside, ← Nat.add_assoc]
          exact counted
        · refine (moved.trans further).congr fun key _ _ => ?_
          rw [visits_cons_of_lt inside less, eq_comm]

omit [DecidableEq Key] in
/-- The loop over the accounts answers whether the weights are enough. -/
theorem checkAccounts_moves [DecidableEq Name] {approves : Name → Check Name Key}
    {threshold total : Nat} {entries : List (Name × Nat)}
    (each : ∀ entry ∈ entries, Resolves accounts keys available
      (entry.1 ∈ approvers accounts keys ∅) (AskedOf accounts keys entry.1) (approves entry.1))
    (kept : state.Kept accounts keys available)
    (fits : FitsFrom threshold total (entries.map Prod.snd))
    (low : total < threshold ∨ threshold = 0) :
    ∃ passed next, checkAccounts approves threshold entries total state = .ok (passed, next) ∧
      (passed = true ↔ threshold ≤ total + weightOf entries (approvers accounts keys ∅)) ∧
      Moves accounts keys available state next (fun key => ∃ name,
        Visits (approvers accounts keys ∅) threshold name entries total ∧
          AskedOf accounts keys name key) := by
  induction entries generalizing total state with
  | nil =>
    refine ⟨decide (total ≥ threshold), state, rfl, by simp, ?_⟩
    refine (Moves.refl kept).congr fun key _ _ => ?_
    exact ⟨False.elim, fun ⟨_, visits, _⟩ => visits⟩
  | cons entry rest hypothesis =>
    obtain ⟨first, weight⟩ := entry
    have others := fun entry member => each entry (List.mem_cons_of_mem _ member)
    obtain ⟨compared, exact_⟩ := fits.addWeight low
    -- An account that approves is counted, and it is remembered with its keys.
    have counted : ∀ middle : SignState Name Key, first ∈ approvers accounts keys ∅ →
        Moves accounts keys available state middle (AskedOf accounts keys first) →
        ∃ passed next, (if addWeight total weight ≥ threshold then .ok (true, middle)
            else checkAccounts approves threshold rest (addWeight total weight) middle) =
              .ok (passed, next) ∧
          (passed = true ↔
            threshold ≤ total + weightOf ((first, weight) :: rest) (approvers accounts keys ∅)) ∧
          Moves accounts keys available state next (fun key => ∃ name,
            Visits (approvers accounts keys ∅) threshold name ((first, weight) :: rest) total ∧
              AskedOf accounts keys name key) := by
      intro middle inside moved
      rw [weightOf_cons_of_mem inside]
      by_cases enough : threshold ≤ total + weight
      · refine ⟨true, middle, if_pos (compared.mpr enough), iff_of_true rfl (by omega), ?_⟩
        refine moved.congr fun key _ _ => ?_
        constructor
        · exact fun asked => ⟨first, .inl rfl, asked⟩
        · rintro ⟨name, rfl | ⟨-, less, -⟩ | ⟨outside, -⟩, asked⟩
          · exact asked
          · omega
          · exact absurd inside outside
      · have less : total + weight < threshold := Nat.not_le.mp enough
        obtain ⟨passed, next, looped, passes, further⟩ :=
          hypothesis others moved.kept fits.count (.inl less)
        refine ⟨passed, next, ?_, ?_, ?_⟩
        · refine (if_neg (fun more => enough (compared.mp more))).trans ?_
          rw [exact_ less]
          exact looped
        · rw [passes, Nat.add_assoc]
        · refine (moved.trans further).congr fun key _ _ => ?_
          constructor
          · rintro (asked | ⟨name, visits, asked⟩)
            · exact ⟨first, .inl rfl, asked⟩
            · exact ⟨name, .inr (.inl ⟨inside, less, visits⟩), asked⟩
          · rintro ⟨name, rfl | ⟨-, -, visits⟩ | ⟨outside, -⟩, asked⟩
            · exact .inl asked
            · exact .inr ⟨name, visits, asked⟩
            · exact absurd inside outside
    rw [checkAccounts]
    by_cases known : first ∈ state.approvedBy
    · rw [if_pos known]
      obtain ⟨approves, used⟩ := kept.remembered first known
      refine counted state approves ((Moves.refl kept).congr fun key inside new => ?_)
      exact ⟨False.elim, fun asked => new (used key inside asked)⟩
    · rw [if_neg known]
      obtain ⟨approved, middle, ran, approval, moved⟩ :=
        each (first, weight) List.mem_cons_self state kept
      cases approved with
      | true =>
        have inside := approval.mp rfl
        have remembered := moved.kept.remember inside fun key signs asked =>
          (moved.used key).mpr (.inr ⟨signs, asked⟩)
        simp only [ran, bind, Except.bind, if_true]
        exact counted _ inside ⟨remembered, moved.used⟩
      | false =>
        have outside : first ∉ approvers accounts keys ∅ := fun inside => by
          cases approval.mpr inside
        obtain ⟨passed, next, looped, passes, further⟩ :=
          hypothesis others moved.kept fits.skip low
        simp only [ran, bind, Except.bind, Bool.false_eq_true, if_false]
        refine ⟨passed, next, looped, ?_, ?_⟩
        · rw [passes, weightOf_cons_of_not_mem outside]
        · refine (moved.trans further).congr fun key _ _ => ?_
          constructor
          · rintro (asked | ⟨name, visits, asked⟩)
            · exact ⟨first, .inl rfl, asked⟩
            · exact ⟨name, .inr (.inr ⟨outside, visits⟩), asked⟩
          · rintro ⟨name, rfl | ⟨inside, -, -⟩ | ⟨-, visits⟩, asked⟩
            · exact .inl asked
            · exact absurd inside outside
            · exact .inr ⟨name, visits, asked⟩

omit [DecidableEq Key] in
theorem either_resolves {property other : Prop} {first second : Check Name Key}
    (one : Resolves accounts keys available property asked first)
    (two : Resolves accounts keys available other later second) :
    Resolves accounts keys available (property ∨ other)
      (fun key => asked key ∨ ¬ property ∧ later key) (either first second) := by
  intro state kept
  obtain ⟨passed, middle, ran, passes, moved⟩ := one state kept
  rw [either]
  simp only [ran, bind, Except.bind]
  cases passed with
  | true =>
    have holds := passes.mp rfl
    refine ⟨true, middle, rfl, iff_of_true rfl (.inl holds), moved.congr fun key _ _ => ?_⟩
    tauto
  | false =>
    have fails : ¬ property := fun holds => by cases passes.mpr holds
    obtain ⟨passed, next, ran, passes, further⟩ := two middle moved.kept
    refine ⟨passed, next, ran, ?_, (moved.trans further).congr fun key _ _ => ?_⟩
    · rw [passes]
      tauto
    · tauto

omit [DecidableEq Key] in
/-- A check of one of the authorities of a known account. -/
theorem pack_resolves {property : Prop} {name : Name} {pack : AuthorityPack Name Key}
    (check : AuthorityPack Name Key → Check Name Key) (known : accounts name = some pack)
    (resolves : Resolves accounts keys available property asked (check pack)) :
    Resolves accounts keys available property asked
      (fun state => do check (← getPack accounts name) state) := by
  have looked : getPack accounts name = .ok pack := by
    rw [getPack, known]
    rfl
  intro state kept
  simp only [looked, bind, Except.bind]
  exact resolves state kept

/-- The accounts that an authority names are known, their authorities nest no deeper than they are
followed, and no total of weights wraps. -/
def Nested (accounts : Name → Option (AuthorityPack Name Key)) :
    Nat → Authority Name Key → Prop
  | 0, auth => auth.Fits ∧ auth.accountAuths = []
  | depth + 1, auth => auth.Fits ∧ ∀ entry ∈ auth.accountAuths, ∃ pack,
      accounts entry.1 = some pack ∧ Nested accounts depth pack.active ∧
        Nested accounts depth pack.owner

omit [DecidableEq Key] in
/-- An account that is looked at is known, and it nests less deep. -/
theorem Nested.named {depth total : Nat} {auth : Authority Name Key} {name : Name}
    (nested : Nested accounts (depth + 1) auth) {counted : Set Name}
    (visits : Visits counted auth.weightThreshold name auth.accountAuths total) :
    ∃ pack, accounts name = some pack ∧ Nested accounts depth pack.active ∧
      Nested accounts depth pack.owner := by
  obtain ⟨weight, member⟩ := visits.mem
  exact nested.2 _ member

/-- The two authorities of an account are followed to their end. -/
def NestedAccount (accounts : Name → Option (AuthorityPack Name Key)) (depth : Nat) (name : Name) :
    Prop :=
  ∃ pack, accounts name = some pack ∧ Nested accounts depth pack.active ∧
    Nested accounts depth pack.owner

omit [DecidableEq Key] in
/-- The keys that are asked for are enough, if all keys are. -/
theorem Derivable.of_asked {depth : Nat} {auth : Authority Name Key}
    (nested : Nested accounts depth auth) (derivable : Derivable accounts keys ∅ auth)
    {some : List Key} (kept : ∀ key ∈ keys, Asked accounts keys auth key → key ∈ some) :
    Derivable accounts some ∅ auth := by
  induction depth generalizing auth with
  | zero =>
    obtain ⟨-, none⟩ := nested
    have enough : auth.weightThreshold ≤ 0 + weightOf auth.keyAuths {key | key ∈ keys} := by
      simpa only [Derivable, Enough, none, weightOf_nil, Nat.add_zero, Nat.zero_add] using derivable
    have signed := enough_of_visits (fun key visits inside => kept key inside (.key visits)) enough
    rw [Nat.zero_add] at signed
    exact signed.trans (Nat.le_add_right _ _)
  | succ depth hypothesis =>
    by_cases high : Reaches {key | key ∈ keys} auth.weightThreshold auth.keyAuths 0
    · have signed := enough_of_visits (fun key visits inside => kept key inside (.key visits))
        high.enough
      rw [Nat.zero_add] at signed
      exact signed.trans (Nat.le_add_right _ _)
    · have signed : weightOf auth.keyAuths {key | key ∈ keys} ≤
          weightOf auth.keyAuths {key | key ∈ some} :=
        weightOf_le_of_mem fun key member inside =>
          kept key inside (.key (visits_of_not_reaches high member))
      have approve : ∀ name, Visits (approvers accounts keys ∅) auth.weightThreshold name
          auth.accountAuths (weightOf auth.keyAuths {key | key ∈ keys}) →
          name ∈ approvers accounts keys ∅ → name ∈ approvers accounts some ∅ := by
        intro name visits approves
        obtain ⟨pack, known, active, owner⟩ := nested.named visits
        rw [mem_approvers known] at approves ⊢
        by_cases acts : Derivable accounts keys ∅ pack.active
        · exact .inl (hypothesis active acts fun key inside asked =>
            kept key inside (.active high visits known asked))
        · exact .inr (hypothesis owner (approves.resolve_left acts) fun key inside asked =>
            kept key inside (.owner high visits known acts asked))
      have enough := enough_of_visits approve derivable
      exact enough.trans (Nat.add_le_add_right signed _)

omit [DecidableEq Key] in
theorem approves_of_asked {depth : Nat} {name : Name} (nested : NestedAccount accounts depth name)
    (approves : name ∈ approvers accounts keys ∅) {some : List Key}
    (kept : ∀ key ∈ keys, AskedOf accounts keys name key → key ∈ some) :
    name ∈ approvers accounts some ∅ := by
  obtain ⟨pack, known, active, owner⟩ := nested
  rw [mem_approvers known] at approves ⊢
  by_cases acts : Derivable accounts keys ∅ pack.active
  · exact .inl (acts.of_asked active fun key inside asked =>
      kept key inside ⟨pack, known, .inl asked⟩)
  · exact .inr ((approves.resolve_left acts).of_asked owner fun key inside asked =>
      kept key inside ⟨pack, known, .inr ⟨acts, asked⟩⟩)

variable [DecidableEq Name]

theorem checkAuthorityWithFor_resolves {approves : Name → Check Name Key}
    {auth : Authority Name Key} (fits : auth.Fits)
    (each : ∀ entry ∈ auth.accountAuths, Resolves accounts keys available
      (entry.1 ∈ approvers accounts keys ∅) (AskedOf accounts keys entry.1) (approves entry.1)) :
    Resolves accounts keys available (Derivable accounts keys ∅ auth) (Asked accounts keys auth)
      (checkAuthorityWithFor available approves auth) := by
  intro state kept
  have low : 0 < auth.weightThreshold ∨ auth.weightThreshold = 0 := by omega
  obtain ⟨reached, total, middle, ran, reaches, counted, moved⟩ :=
    checkKeysFor_moves kept fits low
  cases reached with
  | true =>
    have high := reaches.mp rfl
    refine ⟨true, middle, ?_, iff_of_true rfl ?_, moved.congr fun key _ _ => ?_⟩
    · rw [checkAuthorityWithFor, ran]
    · have enough := high.enough
      rw [Nat.zero_add] at enough
      exact enough.trans (Nat.le_add_right _ _)
    · rw [asked_iff]
      exact ⟨.inl, fun asked => asked.resolve_right fun more => more.1 high⟩
  | false =>
    have short : ¬ Reaches {key | key ∈ keys} auth.weightThreshold auth.keyAuths 0 := fun high => by
      cases reaches.mpr high
    obtain ⟨same, rest, low⟩ := counted rfl
    rw [Nat.zero_add] at same
    subst same
    obtain ⟨passed, next, looped, passes, further⟩ := checkAccounts_moves each moved.kept rest low
    refine ⟨passed, next, ?_, passes, (moved.trans further).congr fun key _ _ => ?_⟩
    · rw [checkAuthorityWithFor, ran]
      exact looped
    · rw [asked_iff, and_iff_right short]

/-- The two checks of a known account. -/
theorem either_pack_resolves {depth : Nat} {name : Name} {pack : AuthorityPack Name Key}
    (known : accounts name = some pack)
    (active : Resolves accounts keys available (Derivable accounts keys ∅ pack.active)
      (Asked accounts keys pack.active) (checkAuthorityFor accounts available depth pack.active))
    (owner : Resolves accounts keys available (Derivable accounts keys ∅ pack.owner)
      (Asked accounts keys pack.owner) (checkAuthorityFor accounts available depth pack.owner)) :
    Resolves accounts keys available (name ∈ approvers accounts keys ∅)
      (AskedOf accounts keys name) (either
        (fun state => do
          checkAuthorityFor accounts available depth (← getPack accounts name).active state)
        (fun state => do
          checkAuthorityFor accounts available depth (← getPack accounts name).owner state)) := by
  intro state kept
  obtain ⟨passed, next, ran, passes, moved⟩ := either_resolves
    (pack_resolves (fun pack => checkAuthorityFor accounts available depth pack.active) known active)
    (pack_resolves (fun pack => checkAuthorityFor accounts available depth pack.owner) known owner)
    state kept
  refine ⟨passed, next, ran, ?_, moved.congr fun key _ _ => ?_⟩
  · rw [passes, mem_approvers known]
  · constructor
    · exact fun asked => ⟨pack, known, asked⟩
    · rintro ⟨other, same, asked⟩
      rw [known, Option.some.injEq] at same
      exact same ▸ asked

/-- Where the accounts nest no deeper than they are followed, an authority is accepted exactly when
it is satisfied, and the keys that are asked for depend on the signing keys alone.

Proof: induction over the depth that is left. An account that is remembered is counted as one that
is checked, and its keys have been marked before. -/
theorem checkAuthorityFor_resolves {depth : Nat} {auth : Authority Name Key}
    (nested : Nested accounts depth auth) :
    Resolves accounts keys available (Derivable accounts keys ∅ auth) (Asked accounts keys auth)
      (checkAuthorityFor accounts available depth auth) := by
  induction depth generalizing auth with
  | zero =>
    obtain ⟨fits, none⟩ := nested
    refine checkAuthorityWithFor_resolves fits fun entry member => ?_
    rw [none] at member
    cases member
  | succ depth hypothesis =>
    obtain ⟨fits, each⟩ := nested
    refine checkAuthorityWithFor_resolves fits fun entry member => ?_
    obtain ⟨pack, known, active, owner⟩ := each entry member
    exact either_pack_resolves known (hypothesis active) (hypothesis owner)

theorem checkOwnerFor_resolves {name : Name} {pack : AuthorityPack Name Key}
    (known : accounts name = some pack) (nested : Nested accounts maxSigCheckDepth pack.owner) :
    Resolves accounts keys available (Derivable accounts keys ∅ pack.owner)
      (Asked accounts keys pack.owner) (checkOwnerFor accounts available name) :=
  pack_resolves (fun pack => checkAuthorityFor accounts available maxSigCheckDepth pack.owner) known
    (checkAuthorityFor_resolves nested)

theorem checkAccountFor_resolves {name : Name}
    (nested : NestedAccount accounts maxSigCheckDepth name) :
    Resolves accounts keys available (name ∈ approvers accounts keys ∅)
      (AskedOf accounts keys name) (checkAccountFor accounts available name) := by
  obtain ⟨pack, known, active, owner⟩ := nested
  intro state kept
  by_cases remembered : name ∈ state.approvedBy
  · obtain ⟨approves, used⟩ := kept.remembered name remembered
    refine ⟨true, state, if_pos remembered, iff_of_true rfl approves, ?_⟩
    refine (Moves.refl kept).congr fun key inside new => ?_
    exact ⟨False.elim, fun asked => new (used key inside asked)⟩
  · obtain ⟨passed, next, ran, done⟩ := either_pack_resolves known
      (checkAuthorityFor_resolves active) (checkAuthorityFor_resolves owner) state kept
    exact ⟨passed, next, (if_neg remembered).trans ran, done⟩

end Resolves

end DeipChain.Protocol
