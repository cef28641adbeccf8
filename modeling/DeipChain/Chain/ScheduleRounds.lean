import DeipChain.Chain.WitnessSchedule

/-!
# The rounds of the schedule

No step changes the number or the name of a registered witness, and the scheduled names
are always names of registered witnesses. So on a round boundary the update of the
schedule finds every witness it looks for, and the laps of virtual time are defined as
long as no witness has minus one votes. Whether the update then succeeds depends on one
assertion alone. It holds exactly when no witness is disabled or enough are enabled for a
whole round, and in that case the new schedule is the one that is asked for.
-/
namespace DeipChain.WitnessSchedule

open Result Selection Chain

variable {Key : Type}

/-!
## The selection
-/

theorem selectVoted_eq (limit : Nat) (witnesses : List (Witness Key)) :
    selectVoted limit witnesses = (witnesses.filter Witness.enabled).take limit := by
  induction limit, witnesses using selectVoted.induct with
  | case1 witnesses => simp [selectVoted]
  | case2 limit positive => simp [selectVoted]
  | case3 limit witness rest enabled hypothesis => simp [selectVoted, enabled, hypothesis]
  | case4 limit witness rest disabled hypothesis => simp [selectVoted, disabled, hypothesis]

theorem selectTimeshare_picked (voted : List Nat) (places : Nat) (witnesses : List (Witness Key)) :
    (selectTimeshare voted places witnesses).2 =
      (witnesses.filter (fun witness => witness.enabled && !voted.contains witness.id)).take
        places := by
  induction places, witnesses using selectTimeshare.induct voted with
  | case1 witnesses => simp [selectTimeshare]
  | case2 places positive => simp [selectTimeshare]
  | case3 places witness rest picked processed others split hypothesis =>
    rw [split] at hypothesis
    simp only [selectTimeshare, picked, if_true, split, List.filter_cons, List.take_succ_cons]
    exact congrArg (List.cons witness) hypothesis
  | case4 places witness rest passed processed others split hypothesis =>
    rw [split] at hypothesis
    simp only [selectTimeshare, passed, split, List.filter_cons]
    exact hypothesis

/-- The loop over the virtual times passes the front of the list. -/
theorem selectTimeshare_front (voted : List Nat) (places : Nat) (witnesses : List (Witness Key)) :
    (selectTimeshare voted places witnesses).1 <+: witnesses := by
  induction places, witnesses using selectTimeshare.induct voted with
  | case1 witnesses => simp [selectTimeshare]
  | case2 places positive => simp [selectTimeshare]
  | case3 places first rest picked processed others split hypothesis =>
    simp only [selectTimeshare, picked, if_true, split]
    rw [split] at hypothesis
    exact (List.prefix_cons_inj first).mpr hypothesis
  | case4 places first rest passed processed others split hypothesis =>
    simp only [selectTimeshare, passed, split]
    rw [split] at hypothesis
    exact (List.prefix_cons_inj first).mpr hypothesis

instance : Std.Total (@votesFirst Key) where
  total one other := by
    unfold votesFirst
    rcases lt_trichotomy one.votes other.votes with less | same | more
    · exact Or.inr (Or.inl less)
    · rcases le_total one.owner other.owner with before | behind
      · exact Or.inl (Or.inr ⟨same.symm, before⟩)
      · exact Or.inr (Or.inr ⟨same, behind⟩)
    · exact Or.inl (Or.inl more)

instance : IsTrans (Witness Key) votesFirst where
  trans one other third := by
    rintro (more | ⟨same, before⟩) (further | ⟨level, behind⟩)
    · exact Or.inl (further.trans more)
    · exact Or.inl (level ▸ more)
    · exact Or.inl (same ▸ further)
    · exact Or.inr ⟨level.trans same, before.trans behind⟩

instance : Std.Total (@soonest Key) where
  total one other := by
    unfold soonest
    omega

instance : IsTrans (Witness Key) soonest where
  trans one other third := by
    unfold soonest
    omega

/-- The first candidates of the sorted witnesses lead the candidates. -/
theorem leading_sorted {precedes : Witness Key → Witness Key → Prop} [DecidableRel precedes]
    [Std.Total precedes] [IsTrans (Witness Key) precedes] {witnesses : List (Witness Key)}
    (distinct : witnesses.Nodup) (eligible : Witness Key → Bool) (count : Nat) :
    Leading precedes count (witnesses.filter eligible)
      (((witnesses.insertionSort precedes).filter eligible).take count) :=
  Leading.of_sorted ((List.perm_insertionSort precedes witnesses).filter eligible)
    ((List.pairwise_insertionSort precedes witnesses).filter eligible) (distinct.filter eligible)
    count

/-- The witnesses with the most votes. -/
def State.voted (state : State Key) : List (Witness Key) :=
  selectVoted maxVotedWitnesses (state.witnesses.insertionSort votesFirst)

/-- The witnesses behind them that are first in virtual time, with all that were passed. -/
def State.timeshare (state : State Key) : List (Witness Key) × List (Witness Key) :=
  selectTimeshare (state.voted.map Witness.id) (maxWitnesses - state.voted.length)
    (state.witnesses.insertionSort soonest)

/-- A witness that can fill a place behind the voted ones. -/
def Witness.standby (voted : List (Witness Key)) (witness : Witness Key) : Bool :=
  witness.enabled && !(voted.map Witness.id).contains witness.id

theorem State.voted_leading {state : State Key} (distinct : state.witnesses.Nodup) :
    Leading votesFirst maxVotedWitnesses (state.witnesses.filter Witness.enabled) state.voted := by
  rw [State.voted, selectVoted_eq]
  exact leading_sorted distinct _ _

theorem State.timeshare_leading {state : State Key} (distinct : state.witnesses.Nodup) :
    Leading soonest (maxWitnesses - state.voted.length)
      (state.witnesses.filter (Witness.standby state.voted)) state.timeshare.2 := by
  rw [State.timeshare, selectTimeshare_picked]
  exact leading_sorted distinct _ _

/-- A witness with an id of the voted ones is one of them. -/
theorem State.mem_voted_of_id {state : State Key} (distinct : state.witnesses.Nodup)
    (numbered : (state.witnesses.map Witness.id).Nodup) {witness : Witness Key}
    (member : witness ∈ state.witnesses) (picked : witness.id ∈ state.voted.map Witness.id) :
    witness ∈ state.voted := by
  obtain ⟨other, chosen, same⟩ := List.mem_map.mp picked
  have registered := List.mem_of_mem_filter ((State.voted_leading distinct).among other chosen)
  rw [← List.inj_on_of_nodup_map numbered registered member same]
  exact chosen

/-- The enabled witnesses that are not voted stand by. -/
theorem State.standby_length {state : State Key} (distinct : state.witnesses.Nodup)
    (numbered : (state.witnesses.map Witness.id).Nodup) :
    (state.witnesses.filter (Witness.standby state.voted)).length + state.voted.length =
      (state.witnesses.filter Witness.enabled).length := by
  have leading := State.voted_leading distinct
  have same : ((state.witnesses.filter Witness.enabled).filter
      (fun witness => (state.voted.map Witness.id).contains witness.id)).Perm state.voted := by
    rw [List.perm_ext_iff_of_nodup ((distinct.filter _).filter _) leading.nodup]
    intro witness
    rw [List.mem_filter]
    constructor
    · rintro ⟨enabled, picked⟩
      exact State.mem_voted_of_id distinct numbered (List.mem_of_mem_filter enabled)
        (by simpa using picked)
    · intro chosen
      exact ⟨leading.among witness chosen, by simpa using ⟨witness, chosen, rfl⟩⟩
  have others : state.witnesses.filter (Witness.standby state.voted) =
      (state.witnesses.filter Witness.enabled).filter
        (fun witness => !(state.voted.map Witness.id).contains witness.id) := by
    rw [List.filter_filter]
    apply List.filter_congr
    intro witness _
    rw [Witness.standby, Bool.and_comm]
  have split := List.length_eq_length_filter_add
    (l := state.witnesses.filter Witness.enabled)
    (fun witness => (state.voted.map Witness.id).contains witness.id)
  rw [same.length_eq] at split
  rw [others]
  omega

/-- The witnesses of the next round, in the order in which they are picked. -/
def State.active (state : State Key) : List (Witness Key) := state.voted ++ state.timeshare.2

theorem State.active_length {state : State Key} (distinct : state.witnesses.Nodup)
    (numbered : (state.witnesses.map Witness.id).Nodup) :
    state.active.length = min maxWitnesses (state.witnesses.filter Witness.enabled).length := by
  have voted := (State.voted_leading distinct).size
  have timeshare := (State.timeshare_leading distinct).size
  have standby := State.standby_length distinct numbered
  have limits : maxVotedWitnesses ≤ maxWitnesses := by decide
  rw [State.active, List.length_append]
  omega

theorem State.active_enabled {state : State Key} (distinct : state.witnesses.Nodup)
    {witness : Witness Key} (member : witness ∈ state.active) :
    witness ∈ state.witnesses ∧ witness.enabled = true := by
  rcases List.mem_append.mp member with chosen | chosen
  · exact List.mem_filter.mp ((State.voted_leading distinct).among witness chosen)
  · obtain ⟨registered, standby⟩ :=
      List.mem_filter.mp ((State.timeshare_leading distinct).among witness chosen)
    rw [Witness.standby, Bool.and_eq_true] at standby
    exact ⟨registered, standby.1⟩

theorem State.active_nodup {state : State Key} (distinct : state.witnesses.Nodup) :
    state.active.Nodup := by
  refine List.nodup_append'.mpr ⟨(State.voted_leading distinct).nodup,
    (State.timeshare_leading distinct).nodup, ?_⟩
  intro witness voted behind
  have standby :=
    (List.mem_filter.mp ((State.timeshare_leading distinct).among witness behind)).2
  rw [Witness.standby, Bool.and_eq_true] at standby
  simp only [List.contains_eq_mem, Bool.not_eq_true', decide_eq_false_iff_not] at standby
  exact standby.2 (List.mem_map_of_mem voted)

/-!
## What no step changes
-/

/-- What a witness is known by, and its votes. -/
def Witness.known (witness : Witness Key) : Nat × String × Int :=
  (witness.id, witness.owner, witness.votes)

/-- The names of the current round. -/
def State.scheduledNames (state : State Key) : List String :=
  state.schedule.currentShuffledWitnesses.take state.schedule.numScheduledWitnesses

/-- The witnesses, their votes and the current round are the same. -/
structure Same (state next : State Key) : Prop where
  known : next.witnesses.map Witness.known = state.witnesses.map Witness.known
  names : next.scheduledNames = state.scheduledNames

theorem Same.refl (state : State Key) : Same state state := ⟨rfl, rfl⟩

theorem Same.trans {state middle next : State Key} (first : Same state middle)
    (second : Same middle next) : Same state next :=
  ⟨second.known.trans first.known, second.names.trans first.names⟩

theorem Same.owners {state next : State Key} (same : Same state next) :
    next.witnesses.map Witness.owner = state.witnesses.map Witness.owner := by
  have mapped := congrArg (List.map (fun known => known.2.1)) same.known
  rwa [List.map_map, List.map_map] at mapped

theorem Same.ids {state next : State Key} (same : Same state next) :
    next.witnesses.map Witness.id = state.witnesses.map Witness.id := by
  have mapped := congrArg (List.map (fun known => known.1)) same.known
  rwa [List.map_map, List.map_map] at mapped

theorem Same.votes {state next : State Key} (same : Same state next) :
    next.witnesses.map Witness.votes = state.witnesses.map Witness.votes := by
  have mapped := congrArg (List.map (fun known => known.2.2)) same.known
  rwa [List.map_map, List.map_map] at mapped

/-- A change that a view of the witnesses does not show. -/
theorem modifyWitness_map {A : Type} {view : Witness Key → A} {change : Witness Key → Witness Key}
    (keeps : ∀ witness, view (change witness) = view witness) (id : Nat) (state : State Key) :
    (state.modifyWitness id change).witnesses.map view = state.witnesses.map view := by
  simp only [State.modifyWitness, List.map_map]
  apply List.map_congr_left
  intro witness _
  simp only [Function.comp_apply]
  split
  · exact keeps witness
  · rfl

theorem Same.modify {change : Witness Key → Witness Key}
    (keeps : ∀ witness, (change witness).known = witness.known) (id : Nat) (state : State Key) :
    Same state (state.modifyWitness id change) where
  known := modifyWitness_map keeps id state
  names := rfl

/-- A witness as it was, in a view that has not changed. -/
theorem exists_of_map {A : Type} {view : Witness Key → A} {state next : State Key}
    (views : next.witnesses.map view = state.witnesses.map view) {witness : Witness Key}
    (member : witness ∈ next.witnesses) : ∃ before ∈ state.witnesses, view witness = view before := by
  have seen : view witness ∈ next.witnesses.map view := List.mem_map_of_mem member
  rw [views] at seen
  obtain ⟨before, registered, same⟩ := List.mem_map.mp seen
  exact ⟨before, registered, same.symm⟩

/-- What holds of the witnesses at every point of a run: they are numbered, no two have
the same name, their votes fit in 64 bits, and the current round names only them. -/
structure Kept (state : State Key) : Prop where
  numbered : state.witnesses.map Witness.id = List.range state.witnesses.length
  named : (state.witnesses.map Witness.owner).Nodup
  bounded : ∀ votes ∈ state.witnesses.map Witness.votes, -2 ^ 63 ≤ votes ∧ votes < 2 ^ 63
  scheduled : ∀ name ∈ state.scheduledNames, name ∈ state.witnesses.map Witness.owner

theorem Same.kept {state next : State Key} (same : Same state next) (kept : Kept state) :
    Kept next where
  numbered := by
    have length := congrArg List.length same.known
    rw [List.length_map, List.length_map] at length
    rw [same.ids, length]
    exact kept.numbered
  named := same.owners ▸ kept.named
  bounded := same.votes ▸ kept.bounded
  scheduled := by
    rw [same.names, same.owners]
    exact kept.scheduled

theorem Kept.ids_nodup {state : State Key} (kept : Kept state) :
    (state.witnesses.map Witness.id).Nodup := kept.numbered ▸ List.nodup_range

theorem Kept.nodup {state : State Key} (kept : Kept state) : state.witnesses.Nodup :=
  List.Nodup.of_map _ kept.ids_nodup

theorem Kept.modify {state : State Key} (kept : Kept state) {change : Witness Key → Witness Key}
    (keeps : ∀ witness, (change witness).id = witness.id ∧ (change witness).owner = witness.owner)
    (bounded : ∀ witness, -2 ^ 63 ≤ (change witness).votes ∧ (change witness).votes < 2 ^ 63)
    (id : Nat) : Kept (state.modifyWitness id change) := by
  have ids := modifyWitness_map (fun witness => (keeps witness).1) id state
  have owners := modifyWitness_map (fun witness => (keeps witness).2) id state
  refine { numbered := ?_, named := owners ▸ kept.named, bounded := ?_, scheduled := ?_ }
  · rw [ids, kept.numbered, State.modifyWitness, List.length_map]
  · simp only [State.modifyWitness, List.map_map, List.mem_map, Function.comp_apply]
    rintro votes ⟨witness, member, rfl⟩
    split
    · exact bounded witness
    · exact kept.bounded _ (List.mem_map_of_mem member)
  · rw [owners]
    exact kept.scheduled

theorem getWitness_ok_iff {state : State Key} {name : String} {witness : Witness Key} :
    state.getWitness name = .ok witness ↔
      state.witnesses.find? (fun witness => witness.owner = name) = some witness :=
  expect_ok_iff

/-- A registered witness is found. -/
theorem getWitness_of_mem {state : State Key} {name : String}
    (member : name ∈ state.witnesses.map Witness.owner) :
    ∃ witness, state.getWitness name = .ok witness := by
  obtain ⟨witness, registered, rfl⟩ := List.mem_map.mp member
  have found : (state.witnesses.find? (fun other => other.owner = witness.owner)).isSome := by
    rw [List.find?_isSome]
    exact ⟨witness, registered, by simp⟩
  obtain ⟨other, lookup⟩ := Option.isSome_iff_exists.mp found
  exact ⟨other, getWitness_ok_iff.mpr lookup⟩

theorem mapM_getWitness_of_mem {state : State Key} {names : List String}
    (members : ∀ name ∈ names, name ∈ state.witnesses.map Witness.owner) :
    ∃ witnesses, names.mapM (fun name => state.getWitness name) = .ok witnesses ∧
      witnesses.length = names.length := by
  induction names with
  | nil => exact ⟨[], rfl, rfl⟩
  | cons name rest hypothesis =>
    obtain ⟨witness, found⟩ := getWitness_of_mem (members name List.mem_cons_self)
    obtain ⟨others, mapped, length⟩ :=
      hypothesis (fun other member => members other (List.mem_cons_of_mem _ member))
    refine ⟨witness :: others, ?_, by simp [length]⟩
    rw [List.mapM_cons, found, mapped]
    rfl

/-!
## The parts of an update
-/

/-- A view that does not show what an update of the schedule writes to a witness. -/
def Steady {A : Type} (view : Witness Key → A) : Prop :=
  ∀ (witness : Witness Key) (mark : ScheduleType) (position last scheduled : Nat),
    view { witness with
      schedule := mark
      virtualPosition := position
      virtualLastUpdate := last
      virtualScheduledTime := scheduled } = view witness

/-- Only the marks and the virtual times of the witnesses, and the current virtual time,
have changed. -/
structure Retimed (state next : State Key) : Prop where
  views : ∀ {A : Type} (view : Witness Key → A), Steady view →
    next.witnesses.map view = state.witnesses.map view
  rest : ∃ witnesses time, next =
    { state with
      witnesses := witnesses
      schedule := { state.schedule with currentVirtualTime := time } }

theorem Retimed.refl (state : State Key) : Retimed state state := ⟨fun _ _ => rfl, _, _, rfl⟩

theorem Retimed.trans {state middle next : State Key} (first : Retimed state middle)
    (second : Retimed middle next) : Retimed state next where
  views view steady := (second.views view steady).trans (first.views view steady)
  rest := by
    obtain ⟨_, _, rfl⟩ := first.rest
    obtain ⟨_, _, rfl⟩ := second.rest
    exact ⟨_, _, rfl⟩

theorem Retimed.same {state next : State Key} (retimed : Retimed state next) : Same state next where
  known := retimed.views Witness.known (fun _ _ _ _ _ => rfl)
  names := by
    obtain ⟨_, _, rfl⟩ := retimed.rest
    rfl

theorem Retimed.modify {change : Witness Key → Witness Key}
    (keeps : ∀ {A : Type} (view : Witness Key → A), Steady view →
      ∀ witness, view (change witness) = view witness) (id : Nat) (state : State Key) :
    Retimed state (state.modifyWitness id change) where
  views view steady := modifyWitness_map (keeps view steady) id state
  rest := ⟨_, _, rfl⟩

theorem markSchedule_retimed (mark : ScheduleType) (picked : List (Witness Key))
    (state : State Key) : Retimed state (state.markSchedule mark picked) := by
  induction picked generalizing state with
  | nil => exact Retimed.refl state
  | cons witness rest hypothesis =>
    refine Retimed.trans ?_ (hypothesis _)
    apply Retimed.modify
    exact fun view steady found => steady found mark _ _ _

theorem advance_retimed {newVirtualTime : Nat} {processed : List (Witness Key)}
    {state : State Key} {result : Bool × State Key}
    (ran : advance newVirtualTime processed state = .ok result) : Retimed state result.2 := by
  induction processed generalizing state with
  | nil =>
    rw [advance, Except.ok.injEq] at ran
    exact ran ▸ Retimed.refl state
  | cons witness rest hypothesis =>
    rw [advance, bind_ok_iff] at ran
    obtain ⟨step, -, ran⟩ := ran
    dsimp only at ran
    split at ran
    · rw [pure_ok_iff] at ran
      exact ran ▸ Retimed.refl state
    · refine Retimed.trans ?_ (hypothesis ran)
      apply Retimed.modify
      exact fun view steady found => steady found _ _ _ _

theorem lap_ok {votes : Int} (bounded : -2 ^ 63 ≤ votes ∧ votes < 2 ^ 63) (defined : votes ≠ -1) :
    ∃ step, lap votes = .ok step := by
  have divisor : toUint128 (votes + 1) ≠ 0 := by
    unfold toUint128
    omega
  exact ⟨_, if_neg divisor⟩

/-- The laps of all witnesses are defined. -/
def State.Laps (state : State Key) : Prop := ∀ witness ∈ state.witnesses, witness.votes ≠ -1

theorem Same.laps {state next : State Key} (same : Same state next) (laps : state.Laps) :
    next.Laps := by
  intro witness member defined
  have votes : witness.votes ∈ next.witnesses.map Witness.votes := List.mem_map_of_mem member
  rw [same.votes] at votes
  obtain ⟨other, registered, equal⟩ := List.mem_map.mp votes
  exact laps other registered (equal.trans defined)

theorem advance_ok {newVirtualTime : Nat} {processed : List (Witness Key)}
    (laps : ∀ witness ∈ processed, ∃ step, lap witness.votes = .ok step) (state : State Key) :
    ∃ result, advance newVirtualTime processed state = .ok result := by
  induction processed generalizing state with
  | nil => exact ⟨_, rfl⟩
  | cons witness rest hypothesis =>
    obtain ⟨step, defined⟩ := laps witness List.mem_cons_self
    rw [advance, defined]
    by_cases overflown : (newVirtualTime + step) % 2 ^ 128 < newVirtualTime
    · exact ⟨(true, state), if_pos overflown⟩
    · obtain ⟨result, advanced⟩ := hypothesis
        (fun other member => laps other (List.mem_cons_of_mem _ member)) _
      exact ⟨result, (if_neg overflown).trans advanced⟩

theorem mapM_ok_map {A : Type} {view : Witness Key → A}
    {change : Witness Key → Except ScheduleError (Witness Key)}
    (keeps : ∀ witness next, change witness = .ok next → view next = view witness)
    {witnesses changed : List (Witness Key)} (ran : witnesses.mapM change = .ok changed) :
    changed.map view = witnesses.map view := by
  have each := forall₂_of_mapM_ok ran
  clear ran
  induction each with
  | nil => rfl
  | cons stepped _ hypothesis =>
    rw [List.map_cons, List.map_cons, keeps _ _ stepped, hypothesis]

theorem mapM_ok {A B : Type} {change : A → Except ScheduleError B} {items : List A}
    (each : ∀ item ∈ items, ∃ next, change item = .ok next) :
    ∃ changed, items.mapM change = .ok changed := by
  induction items with
  | nil => exact ⟨[], rfl⟩
  | cons item rest hypothesis =>
    obtain ⟨next, stepped⟩ := each item List.mem_cons_self
    obtain ⟨others, mapped⟩ :=
      hypothesis (fun other member => each other (List.mem_cons_of_mem _ member))
    rw [List.mapM_cons, stepped, mapped]
    exact ⟨_, rfl⟩

theorem resetVirtualScheduleTime_retimed {state next : State Key}
    (ran : state.resetVirtualScheduleTime = .ok next) : Retimed state next := by
  simp only [State.resetVirtualScheduleTime, bind_ok_iff, pure_ok_iff] at ran
  obtain ⟨reset, mapped, rfl⟩ := ran
  refine ⟨fun view steady => mapM_ok_map ?_ mapped, _, _, rfl⟩
  intro witness changed stepped
  simp only [bind_ok_iff, pure_ok_iff] at stepped
  obtain ⟨scheduled, -, rfl⟩ := stepped
  exact steady witness _ _ _ _

theorem resetVirtualScheduleTime_ok {state : State Key} (kept : Kept state) (laps : state.Laps) :
    ∃ next, state.resetVirtualScheduleTime = .ok next := by
  have each : ∀ witness ∈ state.witnesses, ∃ next : Witness Key,
      (do
        let scheduled ← lap witness.votes
        pure { witness with
          virtualPosition := 0
          virtualLastUpdate := 0
          virtualScheduledTime := scheduled }) =
        (Except.ok next : Except ScheduleError (Witness Key)) := by
    intro witness member
    obtain ⟨step, defined⟩ :=
      lap_ok (kept.bounded _ (List.mem_map_of_mem member)) (laps witness member)
    rw [defined]
    exact ⟨_, rfl⟩
  obtain ⟨reset, mapped⟩ := mapM_ok each
  exact ⟨_, bind_ok_iff.mpr ⟨reset, mapped, rfl⟩⟩

theorem countVersions_same {state next : State Key} (ran : state.countVersions = .ok next) :
    Same state next := by
  simp only [State.countVersions, bind_ok_iff] at ran
  obtain ⟨scheduled, -, ran⟩ := ran
  split at ran
  · rw [pure_ok_iff] at ran
    exact ran ▸ ⟨rfl, rfl⟩
  · rw [pure_ok_iff] at ran
    exact ran ▸ ⟨rfl, rfl⟩

theorem countVersions_ok {state : State Key} (kept : Kept state) :
    ∃ next, state.countVersions = .ok next := by
  obtain ⟨scheduled, found, -⟩ := mapM_getWitness_of_mem kept.scheduled
  unfold State.countVersions
  rw [State.scheduledNames] at found
  rw [found]
  dsimp only [bind, Except.bind]
  split
  · exact ⟨_, rfl⟩
  · exact ⟨_, rfl⟩

theorem updateMedianWitnessProps_same {state next : State Key}
    (ran : state.updateMedianWitnessProps = .ok next) :
    next.witnesses = state.witnesses ∧
      next.schedule.currentShuffledWitnesses = state.schedule.currentShuffledWitnesses ∧
      next.schedule.numScheduledWitnesses = state.schedule.numScheduledWitnesses := by
  simp only [State.updateMedianWitnessProps, bind_ok_iff, pure_ok_iff] at ran
  obtain ⟨_, -, _, -, _, -, rfl⟩ := ran
  exact ⟨rfl, rfl, rfl⟩

theorem median_isSome (order : Witness Key → Witness Key → Bool) {witnesses : List (Witness Key)}
    (some : 0 < witnesses.length) : ∃ middle, median order witnesses = .some middle := by
  have inside : witnesses.length / 2 <
      (witnesses.insertionSort (fun one other => order one other = true)).length := by
    rw [List.length_insertionSort]
    omega
  exact ⟨_, List.getElem?_eq_getElem inside⟩

theorem updateMedianWitnessProps_ok {state : State Key}
    (members : ∀ name ∈ state.scheduledNames, name ∈ state.witnesses.map Witness.owner)
    (some : 0 < state.scheduledNames.length) :
    ∃ next, state.updateMedianWitnessProps = .ok next := by
  obtain ⟨active, found, length⟩ := mapM_getWitness_of_mem members
  rw [← length] at some
  obtain ⟨fee, feeFound⟩ := median_isSome (fun one other =>
    one.props.accountCreationFee ≤ other.props.accountCreationFee) some
  obtain ⟨size, sizeFound⟩ := median_isSome (fun one other =>
    one.props.maximumBlockSize ≤ other.props.maximumBlockSize) some
  unfold State.updateMedianWitnessProps
  rw [State.scheduledNames] at found
  simp only [found, feeFound, sizeFound, expect, bind, Except.bind]
  exact ⟨_, rfl⟩

/-!
## An update
-/

/-- A shuffle permutes the front of the array. -/
theorem shuffle_append (time : Nat) (front back : List String) :
    ∃ shuffled, shuffled.Perm front ∧
      shuffle time front.length (front ++ back) = shuffled ++ back := by
  apply foldl_exchange_append
  intro place member
  obtain ⟨position, inside, rfl⟩ := List.mem_map.mp member
  rw [List.mem_range] at inside
  have offset := Nat.mod_lt (shuffleNumber time position)
    (show 0 < front.length - position by omega)
  exact ⟨inside, by dsimp only; omega⟩

/-- The schedule that is written names the picked witnesses first. -/
theorem writeSchedule_names (voted timeshare : List (Witness Key)) (newVirtualTime : Nat)
    (state : State Key) (some : 0 < (voted ++ timeshare).length) :
    ∃ shuffled, shuffled.Perm ((voted ++ timeshare).map Witness.owner) ∧
      (state.writeSchedule voted timeshare newVirtualTime).schedule.currentShuffledWitnesses =
        shuffled ++ List.replicate (maxWitnesses - (voted ++ timeshare).length) "" ∧
      (state.writeSchedule voted timeshare newVirtualTime).schedule.numScheduledWitnesses =
        shuffled.length := by
  have count : max ((voted ++ timeshare).map Witness.owner).length 1 =
      ((voted ++ timeshare).map Witness.owner).length := by
    rw [List.length_map]
    omega
  obtain ⟨shuffled, permuted, result⟩ := shuffle_append state.time
    ((voted ++ timeshare).map Witness.owner)
    (List.replicate (maxWitnesses - (voted ++ timeshare).length) "")
  refine ⟨shuffled, permuted, ?_, ?_⟩
  · dsimp only [State.writeSchedule]
    rw [count, ← result, List.length_map]
  · dsimp only [State.writeSchedule]
    rw [count, permuted.length_eq]

/-- The virtual time that the processed witnesses start the next lap from. -/
def State.newVirtualTime (state : State Key) : Nat :=
  (state.timeshare.1.getLast?.map Witness.virtualScheduledTime).getD
    state.schedule.currentVirtualTime

/-- The state with the picked witnesses marked. -/
def State.marked (state : State Key) : State Key :=
  (state.markSchedule .top20 state.voted).markSchedule .timeshare state.timeshare.2

/-- An update succeeds when the virtual times can be advanced, as many witnesses are
picked as are expected, and the witnesses of the current and the next round are found. -/
theorem reschedule_ok_iff {state next : State Key} :
    state.reschedule = .ok next ↔
      ∃ result, advance state.newVirtualTime state.timeshare.1 state.marked = .ok result ∧
        ∃ timed, (if result.1 then result.2.resetVirtualScheduleTime else pure result.2) =
            .ok timed ∧
          state.active.length = min maxWitnesses state.witnesses.length ∧
          ∃ counted, timed.countVersions = .ok counted ∧
            (counted.writeSchedule state.voted state.timeshare.2
              (if result.1 then 0 else state.newVirtualTime)).updateMedianWitnessProps =
                .ok next := by
  change (do
    let result ← advance state.newVirtualTime state.timeshare.1 state.marked
    let timed ← if result.1 then result.2.resetVirtualScheduleTime else pure result.2
    require (state.active.length = min maxWitnesses state.witnesses.length) _
    let counted ← timed.countVersions
    (counted.writeSchedule state.voted state.timeshare.2
      (if result.1 then 0 else state.newVirtualTime)).updateMedianWitnessProps) = _ ↔ _
  rw [bind_ok_iff]
  apply exists_congr
  intro result
  apply and_congr_right
  intro _
  cases result.1 <;> simp [bind_ok_iff, require_ok_iff, pure_ok_iff]

theorem marked_retimed (state : State Key) : Retimed state state.marked :=
  (markSchedule_retimed _ _ _).trans (markSchedule_retimed _ _ _)

/-- What an update does before it writes the schedule leaves the rest alone. -/
theorem timed_retimed {state timed : State Key} {result : Bool × State Key}
    (advanced : advance state.newVirtualTime state.timeshare.1 state.marked = .ok result)
    (reset : (if result.1 then result.2.resetVirtualScheduleTime else pure result.2) = .ok timed) :
    Retimed state timed := by
  refine ((marked_retimed state).trans (advance_retimed advanced)).trans ?_
  split at reset
  · exact resetVirtualScheduleTime_retimed reset
  · rw [pure_ok_iff] at reset
    exact reset ▸ Retimed.refl _

theorem mapM_getWitness_mem {state : State Key} {names : List String} {found : List (Witness Key)}
    (ran : names.mapM (fun name => state.getWitness name) = .ok found) :
    ∀ name ∈ names, name ∈ state.witnesses.map Witness.owner := by
  have each := forall₂_of_mapM_ok ran
  clear ran
  induction each with
  | nil =>
    intro name member
    exact absurd member List.not_mem_nil
  | @cons first witness _ _ lookup _ hypothesis =>
    intro name member
    rcases List.mem_cons.mp member with rfl | behind
    · rw [getWitness_ok_iff] at lookup
      have owned : witness.owner = name := by simpa using List.find?_some lookup
      exact owned ▸ List.mem_map_of_mem (List.mem_of_find?_eq_some lookup)
    · exact hypothesis name behind

/-- The names of the current round whose witnesses pass a test. -/
def State.backers (test : Witness Key → Bool) (state : State Key) : List String :=
  state.scheduledNames.filter (fun name => state.witnesses.any (fun witness =>
    witness.owner = name && test witness))

/-- The witnesses that a loop over the current round finds, counted by their names. -/
theorem countP_le_backers {state : State Key} {found : List (Witness Key)}
    (test : Witness Key → Bool)
    (ran : state.scheduledNames.mapM (fun name => state.getWitness name) = .ok found) :
    found.countP test ≤ (state.backers test).length := by
  have each := forall₂_of_mapM_ok ran
  rw [State.backers]
  generalize state.scheduledNames = names at each
  clear ran
  induction each with
  | nil => exact Nat.le_refl 0
  | @cons name witness _ _ lookup _ behind =>
    rw [getWitness_ok_iff] at lookup
    rw [List.countP_cons, List.filter_cons]
    by_cases passes : test witness = true
    · have counted : state.witnesses.any (fun witness =>
          witness.owner = name && test witness) = true := by
        rw [List.any_eq_true]
        have owned := List.find?_some lookup
        exact ⟨witness, List.mem_of_find?_eq_some lookup, by simp_all⟩
      rw [counted, if_pos passes, if_pos rfl, List.length_cons]
      omega
    · rw [if_neg passes]
      split
      · rw [List.length_cons]
        omega
      · omega

theorem updateMedianWitnessProps_scheduled {state next : State Key}
    (ran : state.updateMedianWitnessProps = .ok next) :
    ∀ name ∈ state.scheduledNames, name ∈ state.witnesses.map Witness.owner := by
  simp only [State.updateMedianWitnessProps, bind_ok_iff] at ran
  obtain ⟨active, found, -⟩ := ran
  exact mapM_getWitness_mem found

theorem reschedule_kept {state next : State Key} (kept : Kept state)
    (ran : state.reschedule = .ok next) : Kept next := by
  obtain ⟨result, advanced, timed, reset, -, counted, ran, updated⟩ := reschedule_ok_iff.mp ran
  have before : Kept counted :=
    ((timed_retimed advanced reset).same.trans (countVersions_same ran)).kept kept
  obtain ⟨witnesses, names, number⟩ := updateMedianWitnessProps_same updated
  have scheduled := updateMedianWitnessProps_scheduled updated
  refine { numbered := ?_, named := ?_, bounded := ?_, scheduled := ?_ }
  · rw [witnesses]
    exact before.numbered
  · rw [witnesses]
    exact before.named
  · rw [witnesses]
    exact before.bounded
  · rw [witnesses, State.scheduledNames, names, number]
    exact scheduled

/-- An update leaves alone what a steady view shows of the witnesses, and the clock. -/
structure Unhurried (state next : State Key) : Prop where
  views : ∀ {A : Type} (view : Witness Key → A), Steady view →
    next.witnesses.map view = state.witnesses.map view
  head : next.headBlockNum = state.headBlockNum
  time : next.time = state.time

theorem countVersions_witnesses {state next : State Key} (ran : state.countVersions = .ok next) :
    next.witnesses = state.witnesses ∧ next.headBlockNum = state.headBlockNum ∧
      next.time = state.time := by
  simp only [State.countVersions, bind_ok_iff] at ran
  obtain ⟨scheduled, -, ran⟩ := ran
  split at ran
  · rw [pure_ok_iff] at ran
    exact ran ▸ ⟨rfl, rfl, rfl⟩
  · rw [pure_ok_iff] at ran
    exact ran ▸ ⟨rfl, rfl, rfl⟩

theorem updateMedianWitnessProps_clock {state next : State Key}
    (ran : state.updateMedianWitnessProps = .ok next) :
    next.headBlockNum = state.headBlockNum ∧ next.time = state.time := by
  simp only [State.updateMedianWitnessProps, bind_ok_iff, pure_ok_iff] at ran
  obtain ⟨_, -, _, -, _, -, rfl⟩ := ran
  exact ⟨rfl, rfl⟩

theorem reschedule_unhurried {state next : State Key} (ran : state.reschedule = .ok next) :
    Unhurried state next := by
  obtain ⟨result, advanced, timed, reset, -, counted, ran, updated⟩ := reschedule_ok_iff.mp ran
  have retimed := timed_retimed advanced reset
  obtain ⟨_, _, rfl⟩ := retimed.rest
  obtain ⟨witnesses, head, time⟩ := countVersions_witnesses ran
  obtain ⟨written, -, -⟩ := updateMedianWitnessProps_same updated
  obtain ⟨sameHead, sameTime⟩ := updateMedianWitnessProps_clock updated
  refine ⟨fun view steady => ?_, sameHead.trans head, sameTime.trans time⟩
  rw [written]
  change counted.witnesses.map view = _
  rw [witnesses]
  exact retimed.views view steady

theorem updateWitnessSchedule_unhurried {state next : State Key}
    (ran : state.updateWitnessSchedule = .ok next) : Unhurried state next := by
  unfold State.updateWitnessSchedule at ran
  split at ran
  · exact reschedule_unhurried ran
  · exact Except.ok.inj ran ▸ ⟨fun _ _ => rfl, rfl, rfl⟩

theorem updateWitnessSchedule_kept {state next : State Key} (kept : Kept state)
    (ran : state.updateWitnessSchedule = .ok next) : Kept next := by
  unfold State.updateWitnessSchedule at ran
  split at ran
  · exact reschedule_kept kept ran
  · exact Except.ok.inj ran ▸ kept

/-- The schedule of a round is the one that is asked for. -/
structure Scheduled (state next : State Key) (voted timeshare : List (Witness Key)) : Prop where
  elected : Leading votesFirst maxVotedWitnesses (state.witnesses.filter Witness.enabled) voted
  lined : Leading soonest (maxWitnesses - voted.length)
    (state.witnesses.filter (Witness.standby voted)) timeshare
  permuted : next.scheduledNames.Perm ((voted ++ timeshare).map Witness.owner)
  distinct : next.scheduledNames.Nodup
  enabled : ∀ witness ∈ state.witnesses, witness.owner ∈ next.scheduledNames →
    witness.enabled = true
  places : next.schedule.currentShuffledWitnesses.length = maxWitnesses
  blank : ∀ name ∈ next.schedule.currentShuffledWitnesses.drop
    next.schedule.numScheduledWitnesses, name = ""

/-- A round has no more places than there are to give. -/
theorem reschedule_count {state next : State Key} (ran : state.reschedule = .ok next) :
    next.schedule.numScheduledWitnesses ≤ maxWitnesses := by
  obtain ⟨result, -, timed, -, size, counted, -, updated⟩ := reschedule_ok_iff.mp ran
  obtain ⟨-, -, number⟩ := updateMedianWitnessProps_same updated
  rw [State.active] at size
  rw [number]
  simp only [State.writeSchedule, List.length_map, size, maxWitnesses]
  omega

/-- Enough witnesses are enabled for a whole round, or all of them are. -/
def State.Staffed (state : State Key) : Prop :=
  maxWitnesses ≤ (state.witnesses.filter Witness.enabled).length ∨
    ∀ witness ∈ state.witnesses, witness.enabled = true

theorem staffed_iff {state : State Key} (kept : Kept state) :
    state.Staffed ↔ state.active.length = min maxWitnesses state.witnesses.length := by
  rw [State.active_length kept.nodup kept.ids_nodup, State.Staffed,
    ← List.length_filter_eq_length_iff]
  have fewer := List.length_filter_le Witness.enabled state.witnesses
  omega

/-- A successful update writes the schedule that is asked for. -/
theorem reschedule_scheduled {state next : State Key} (kept : Kept state)
    (some : 0 < state.witnesses.length) (ran : state.reschedule = .ok next) :
    Scheduled state next state.voted state.timeshare.2 := by
  obtain ⟨result, -, timed, -, size, counted, -, updated⟩ := reschedule_ok_iff.mp ran
  have active : 0 < (state.voted ++ state.timeshare.2).length := by
    have full : 0 < maxWitnesses := by decide
    rw [State.active] at size
    omega
  have limit : (state.voted ++ state.timeshare.2).length ≤ maxWitnesses := by
    rw [State.active] at size
    omega
  obtain ⟨-, names, number⟩ := updateMedianWitnessProps_same updated
  obtain ⟨shuffled, permuted, written, count⟩ := writeSchedule_names state.voted state.timeshare.2
    (if result.1 then 0 else state.newVirtualTime) counted active
  rw [written] at names
  rw [count] at number
  have scheduled : next.scheduledNames = shuffled := by
    rw [State.scheduledNames, names, number, List.take_left]
  have owners : (state.active.map Witness.owner).Nodup := by
    refine (State.active_nodup kept.nodup).map_on ?_
    intro one member other behind same
    exact List.inj_on_of_nodup_map kept.named (State.active_enabled kept.nodup member).1
      (State.active_enabled kept.nodup behind).1 same
  exact {
    elected := State.voted_leading kept.nodup
    lined := State.timeshare_leading kept.nodup
    permuted := scheduled ▸ permuted
    distinct := by
      rw [scheduled]
      exact permuted.nodup_iff.mpr owners
    enabled := by
      intro witness member named
      rw [scheduled, permuted.mem_iff] at named
      obtain ⟨other, chosen, same⟩ := List.mem_map.mp named
      obtain ⟨registered, enabled⟩ := State.active_enabled kept.nodup chosen
      rw [← List.inj_on_of_nodup_map kept.named registered member same]
      exact enabled
    places := by
      rw [names, List.length_append, permuted.length_eq, List.length_map, List.length_replicate]
      omega
    blank := by
      intro name behind
      rw [names, number, List.drop_left] at behind
      exact List.eq_of_mem_replicate behind }

/-- An update of enough witnesses succeeds. -/
theorem reschedule_ok {state : State Key} (kept : Kept state) (laps : state.Laps)
    (some : 0 < state.witnesses.length) (staffed : state.Staffed) :
    ∃ next, state.reschedule = .ok next := by
  have size := (staffed_iff kept).mp staffed
  have processed : ∀ witness ∈ state.timeshare.1, ∃ step, lap witness.votes = .ok step := by
    intro witness member
    have registered : witness ∈ state.witnesses :=
      (List.mem_insertionSort soonest).mp ((selectTimeshare_front _ _ _).subset member)
    exact lap_ok (kept.bounded _ (List.mem_map_of_mem registered)) (laps witness registered)
  obtain ⟨result, advanced⟩ := advance_ok processed state.marked
  have middle := ((marked_retimed state).trans (advance_retimed advanced)).same
  have reset : ∃ timed, (if result.1 then result.2.resetVirtualScheduleTime else pure result.2) =
      .ok timed := by
    split
    · exact resetVirtualScheduleTime_ok (middle.kept kept) (middle.laps laps)
    · exact ⟨_, rfl⟩
  obtain ⟨timed, reset⟩ := reset
  have same := (timed_retimed advanced reset).same
  obtain ⟨counted, ran⟩ := countVersions_ok (same.kept kept)
  have all := same.trans (countVersions_same ran)
  have active : 0 < (state.voted ++ state.timeshare.2).length := by
    have full : 0 < maxWitnesses := by decide
    rw [State.active] at size
    omega
  obtain ⟨shuffled, permuted, written, count⟩ := writeSchedule_names state.voted state.timeshare.2
    (if result.1 then 0 else state.newVirtualTime) counted active
  have scheduled : (counted.writeSchedule state.voted state.timeshare.2
      (if result.1 then 0 else state.newVirtualTime)).scheduledNames = shuffled := by
    rw [State.scheduledNames, written, count, List.take_left]
  have named : ∀ name ∈ shuffled, name ∈ counted.witnesses.map Witness.owner := by
    intro name member
    rw [permuted.mem_iff] at member
    obtain ⟨witness, chosen, rfl⟩ := List.mem_map.mp member
    rw [all.owners]
    exact List.mem_map_of_mem (State.active_enabled kept.nodup chosen).1
  have updated : ∃ next, (counted.writeSchedule state.voted state.timeshare.2
      (if result.1 then 0 else state.newVirtualTime)).updateMedianWitnessProps = .ok next := by
    apply updateMedianWitnessProps_ok
    · rw [scheduled]
      exact named
    · rw [scheduled, permuted.length_eq, List.length_map]
      exact active
  obtain ⟨next, updated⟩ := updated
  exact ⟨next, reschedule_ok_iff.mpr
    ⟨result, advanced, timed, reset, size, counted, ran, updated⟩⟩

/-!
## Runs
-/

/-- A step keeps what is to be kept and takes no witness away. -/
structure Grown (state next : State Key) : Prop where
  keeps : Kept state → Kept next
  longer : state.witnesses.length ≤ next.witnesses.length

theorem Grown.trans {state middle next : State Key} (first : Grown state middle)
    (second : Grown middle next) : Grown state next :=
  ⟨fun kept => second.keeps (first.keeps kept), first.longer.trans second.longer⟩

theorem Same.grown {state next : State Key} (same : Same state next) : Grown state next where
  keeps := same.kept
  longer := by
    have length := congrArg List.length same.known
    rw [List.length_map, List.length_map] at length
    exact length.ge

theorem witnessUpdate_grown (owner : String) (signingKey : Option Key) (props : ChainProperties)
    (state : State Key) : Grown state (state.witnessUpdate owner signingKey props) := by
  unfold State.witnessUpdate
  split
  · apply Same.grown
    apply Same.modify
    intro found
    rfl
  · rename_i missing
    have fresh : owner ∉ state.witnesses.map Witness.owner := by
      intro member
      obtain ⟨witness, registered, same⟩ := List.mem_map.mp member
      exact List.find?_eq_none.mp missing witness registered (by simpa using same)
    refine ⟨fun kept => ?_, by simp⟩
    refine { numbered := ?_, named := ?_, bounded := ?_, scheduled := ?_ }
    · simp [kept.numbered, List.range_succ, Witness.new]
    · simp only [List.map_append, List.map_cons, List.map_nil, Witness.new]
      rw [List.nodup_append]
      refine ⟨kept.named, List.nodup_singleton _, ?_⟩
      intro name member other single same
      rw [List.mem_singleton] at single
      exact fresh (single ▸ same ▸ member)
    · simp only [List.map_append, List.mem_append, Witness.new]
      rintro votes (old | new)
      · exact kept.bounded votes old
      · simp only [List.map_cons, List.map_nil, List.mem_singleton] at new
        omega
    · intro name member
      rw [List.map_append]
      exact List.mem_append_left _ (kept.scheduled name member)

theorem adjustWitnessVote_grown {owner : String} {delta total : Int} {state next : State Key}
    (ran : state.adjustWitnessVote owner delta total = .ok next) : Grown state next := by
  simp only [State.adjustWitnessVote, adjustedVotes, bind_ok_iff, require_ok_iff, pure_ok_iff,
    exists_const] at ran
  obtain ⟨witness, -, votes, ⟨bounded, -, rfl⟩, rest, -, rfl⟩ := ran
  refine ⟨fun kept => ?_, by simp [State.modifyWitness]⟩
  apply kept.modify
  · exact fun found => ⟨rfl, rfl⟩
  · exact fun found => bounded

theorem applyEvent_grown {event : Event Key} {state next : State Key}
    (ran : state.applyEvent event = .ok next) : Grown state next := by
  cases event with
  | witnessUpdate owner signingKey props =>
    rw [State.applyEvent, pure_ok_iff] at ran
    exact ran ▸ witnessUpdate_grown owner signingKey props state
  | adjustWitnessVote owner delta total => exact adjustWitnessVote_grown ran
  | reportVersion owner version =>
    simp only [State.applyEvent, bind_ok_iff, pure_ok_iff] at ran
    obtain ⟨witness, -, rfl⟩ := ran
    apply Same.grown
    apply Same.modify
    intro found
    rfl
  | voteHardfork owner version at_ =>
    simp only [State.applyEvent, bind_ok_iff, pure_ok_iff] at ran
    obtain ⟨witness, -, rfl⟩ := ran
    apply Same.grown
    apply Same.modify
    intro found
    rfl

/-- A loop whose rounds keep what is to be kept. -/
theorem foldlM_grown {A : Type} {step : State Key → A → Except ScheduleError (State Key)}
    (round : ∀ element state next, step state element = .ok next → Grown state next)
    {elements : List A} {state next : State Key} (ran : elements.foldlM step state = .ok next) :
    Grown state next :=
  foldlM_invariant (fun _ reached => Grown state reached)
    (fun element _ _ _ before stepped => before.trans (round element _ _ stepped))
    (Same.refl state).grown ran

theorem applyEvents_grown {events : List (Event Key)} {state next : State Key}
    (ran : events.foldlM State.applyEvent state = .ok next) : Grown state next :=
  foldlM_grown (fun _ _ _ => applyEvent_grown) ran

theorem missSlot_same {block : Block Key} {state next : State Key} {slot : Nat}
    (ran : state.missSlot block slot = .ok next) : Same state next := by
  rw [State.missSlot, bind_ok_iff] at ran
  obtain ⟨missed, -, ran⟩ := ran
  split at ran
  · rw [pure_ok_iff] at ran
    exact ran ▸ Same.refl state
  · rw [pure_ok_iff] at ran
    subst ran
    apply Same.modify
    intro found
    rfl

theorem updateGlobalDynamicData_grown {block : Block Key} {state next : State Key}
    (ran : state.updateGlobalDynamicData block = .ok next) : Grown state next := by
  simp only [State.updateGlobalDynamicData, bind_ok_iff, pure_ok_iff] at ran
  obtain ⟨slotted, ran, rfl⟩ := ran
  have grown : Grown state slotted := foldlM_grown (fun _ _ _ ran => (missSlot_same ran).grown) ran
  exact grown.trans (Same.grown ⟨rfl, rfl⟩)

theorem updateSigningWitness_grown {block : Block Key} {state next : State Key}
    (ran : state.updateSigningWitness block = .ok next) : Grown state next := by
  simp only [State.updateSigningWitness, bind_ok_iff, pure_ok_iff] at ran
  obtain ⟨witness, -, rfl⟩ := ran
  apply Same.grown
  apply Same.modify
  intro found
  rfl

theorem validateBlockHeader_some {block : Block Key} {state : State Key} {result : Unit}
    (ran : state.validateBlockHeader block = .ok result) : 0 < state.witnesses.length := by
  simp only [State.validateBlockHeader, bind_ok_iff] at ran
  obtain ⟨-, -, witness, found, -⟩ := ran
  exact List.length_pos_of_mem (List.mem_of_find?_eq_some (getWitness_ok_iff.mp found))

theorem beforeSchedule_grown {block : Block Key} {state next : State Key}
    (ran : state.beforeSchedule block = .ok next) :
    Grown state next ∧ 0 < next.witnesses.length := by
  simp only [State.beforeSchedule, bind_ok_iff] at ran
  obtain ⟨_, valid, applied, transactions, headed, global, signed, signing, expired⟩ := ran
  have grown : Grown state next :=
    (((applyEvents_grown transactions).trans (updateGlobalDynamicData_grown global)).trans
      (updateSigningWitness_grown signing)).trans (applyEvents_grown expired)
  exact ⟨grown, (validateBlockHeader_some valid).trans_le grown.longer⟩

theorem applyBlock_kept {block : Block Key} {state next : State Key} (kept : Kept state)
    (ran : state.applyBlock block = .ok next) : Kept next := by
  simp only [State.applyBlock, bind_ok_iff] at ran
  obtain ⟨ready, before, scheduled, updated, processed⟩ := ran
  exact (applyEvents_grown processed).keeps
    (updateWitnessSchedule_kept ((beforeSchedule_grown before).1.keeps kept) updated)

/-- What the candidates have registered so far. -/
structure Registered (names : List String) (witnesses : List (Witness Key)) : Prop where
  numbered : witnesses.map Witness.id = List.range witnesses.length
  owners : witnesses.map Witness.owner = names
  named : names.Nodup
  votes : ∀ witness ∈ witnesses, witness.votes = 0

theorem addCandidate_registered {genesisTime : Nat} {props : ChainProperties} {names : List String}
    {witnesses next : List (Witness Key)} {candidate : String × Option Key}
    (registered : Registered names witnesses)
    (ran : addCandidate genesisTime props witnesses candidate = .ok next) :
    Registered (names ++ [candidate.1]) next := by
  simp only [addCandidate, bind_ok_iff, require_ok_iff, pure_ok_iff] at ran
  obtain ⟨-, -, -, fresh, rfl⟩ := ran
  rw [registered.owners] at fresh
  refine { numbered := ?_, owners := ?_, named := ?_, votes := ?_ }
  · simp [registered.numbered, List.range_succ, Witness.new]
  · simp [registered.owners, Witness.new]
  · rw [List.nodup_append]
    refine ⟨registered.named, List.nodup_singleton _, ?_⟩
    intro name member other single same
    rw [List.mem_singleton] at single
    exact fresh (single ▸ same ▸ member)
  · intro witness member
    rcases List.mem_append.mp member with old | new
    · exact registered.votes witness old
    · rw [List.mem_singleton.mp new, Witness.new]

theorem addCandidates_registered {genesisTime : Nat} {props : ChainProperties}
    {names : List String} {witnesses next : List (Witness Key)}
    {candidates : List (String × Option Key)} (registered : Registered names witnesses)
    (ran : candidates.foldlM (addCandidate genesisTime props) witnesses = .ok next) :
    Registered (names ++ candidates.map Prod.fst) next := by
  induction candidates generalizing names witnesses with
  | nil =>
    rw [List.foldlM_nil, pure_ok_iff] at ran
    rw [List.map_nil, List.append_nil]
    exact ran ▸ registered
  | cons candidate rest hypothesis =>
    rw [List.foldlM_cons, bind_ok_iff] at ran
    obtain ⟨added, stepped, ran⟩ := ran
    have more := hypothesis (addCandidate_registered registered stepped) ran
    rwa [List.append_assoc] at more

theorem genesis_registered {genesisTime : Nat} {props : ChainProperties}
    {candidates : List (String × Option Key)} {start : State Key}
    (founded : genesis genesisTime props candidates = .ok start) :
    Registered (candidates.map Prod.fst) start.witnesses := by
  simp only [genesis, bind_ok_iff, pure_ok_iff] at founded
  obtain ⟨witnesses, added, rfl⟩ := founded
  have none : Registered [] ([] : List (Witness Key)) :=
    ⟨rfl, rfl, List.nodup_nil, fun witness member => absurd member List.not_mem_nil⟩
  have registered := addCandidates_registered none added
  rwa [List.nil_append] at registered

/-- The witnesses of a genesis are new. -/
theorem genesis_new {genesisTime : Nat} {props : ChainProperties}
    {candidates : List (String × Option Key)} {start : State Key}
    (founded : genesis genesisTime props candidates = .ok start) :
    ∀ witness ∈ start.witnesses, ∃ id owner signingKey,
      witness = .new id owner signingKey .top20 props genesisTime := by
  simp only [genesis, bind_ok_iff, pure_ok_iff] at founded
  obtain ⟨witnesses, added, rfl⟩ := founded
  refine foldlM_invariant (fun _ reached => ∀ witness ∈ reached, ∃ id owner signingKey,
    witness = .new id owner signingKey .top20 props genesisTime) ?_
    (fun witness member => absurd member List.not_mem_nil) added
  intro candidate _ before after each stepped
  simp only [addCandidate, bind_ok_iff, pure_ok_iff] at stepped
  obtain ⟨-, -, -, -, rfl⟩ := stepped
  intro witness member
  rcases List.mem_append.mp member with old | new
  · exact each witness old
  · exact ⟨_, _, _, List.mem_singleton.mp new⟩

/-- A genesis with a candidate starts out with what is kept. -/
theorem genesis_kept {genesisTime : Nat} {props : ChainProperties}
    {candidates : List (String × Option Key)} {start : State Key}
    (founded : genesis genesisTime props candidates = .ok start)
    (some : 0 < start.witnesses.length) : Kept start := by
  have registered := genesis_registered founded
  simp only [genesis, bind_ok_iff, pure_ok_iff] at founded
  obtain ⟨witnesses, added, rfl⟩ := founded
  refine { numbered := registered.numbered, named := ?_, bounded := ?_, scheduled := ?_ }
  · exact registered.owners.symm ▸ registered.named
  · intro votes member
    obtain ⟨witness, listed, rfl⟩ := List.mem_map.mp member
    rw [registered.votes witness listed]
    omega
  · cases candidates with
    | nil =>
      have length := congrArg List.length registered.owners
      simp only [List.map_nil, List.length_map, List.length_nil] at length
      dsimp only at some
      omega
    | cons first rest =>
      rw [registered.owners]
      intro name member
      simp only [State.scheduledNames, maxWitnesses, List.map_cons, List.take_succ_cons,
        List.cons_append, List.take_zero, List.mem_singleton] at member
      rw [member]
      exact List.mem_cons_self

/-- After every run that can go on, what is to be kept holds. -/
theorem run_kept {genesisTime : Nat} {props : ChainProperties}
    {candidates : List (String × Option Key)} {start state middle : State Key}
    {blocks : List (Block Key)} {block : Block Key}
    (founded : genesis genesisTime props candidates = .ok start)
    (ran : blocks.foldlM State.applyBlock start = .ok state)
    (ready : state.beforeSchedule block = .ok middle) : Kept middle := by
  refine (beforeSchedule_grown ready).1.keeps ?_
  cases blocks with
  | nil =>
    rw [List.foldlM_nil, pure_ok_iff] at ran
    subst ran
    simp only [State.beforeSchedule, bind_ok_iff] at ready
    obtain ⟨_, valid, -⟩ := ready
    exact genesis_kept founded (validateBlockHeader_some valid)
  | cons first rest =>
    have begun : 0 < start.witnesses.length := by
      simp only [List.foldlM_cons, State.applyBlock, State.beforeSchedule, bind_ok_iff] at ran
      obtain ⟨-, ⟨-, ⟨_, valid, -⟩, -⟩, -⟩ := ran
      exact validateBlockHeader_some valid
    exact foldlM_invariant (fun _ reached => Kept reached)
      (fun _ _ _ _ kept stepped => applyBlock_kept kept stepped) (genesis_kept founded begun) ran

/-- In every run from a genesis, on every round boundary at which no witness has minus one
votes, the update of the schedule succeeds and writes the schedule that is asked for
exactly when enough witnesses are enabled or all are. -/
theorem boundary_scheduled_iff {genesisTime : Nat} {props : ChainProperties}
    {candidates : List (String × Option Key)} {start state middle : State Key}
    {blocks : List (Block Key)} {block : Block Key}
    (founded : genesis genesisTime props candidates = .ok start)
    (ran : blocks.foldlM State.applyBlock start = .ok state)
    (ready : state.beforeSchedule block = .ok middle)
    (boundary : middle.headBlockNum % maxWitnesses = 0) (laps : middle.Laps) :
    (∃ next voted timeshare, middle.updateWitnessSchedule = .ok next ∧
      Scheduled middle next voted timeshare) ↔ middle.Staffed := by
  have kept := run_kept founded ran ready
  have some := (beforeSchedule_grown ready).2
  rw [State.updateWitnessSchedule, if_pos boundary]
  constructor
  · rintro ⟨next, voted, timeshare, updated, -⟩
    obtain ⟨_, -, _, -, size, -⟩ := reschedule_ok_iff.mp updated
    exact (staffed_iff kept).mpr size
  · intro staffed
    obtain ⟨next, updated⟩ := reschedule_ok kept laps some staffed
    exact ⟨next, _, _, updated, reschedule_scheduled kept some updated⟩

/-!
## A chain with two witnesses
-/
namespace TwoWitnesses

/-- What the witnesses propose. -/
def props : ChainProperties := { accountCreationFee := 1, maximumBlockSize := 65536 }

/-- A block of the first witness, with what its transactions do. -/
def block (events : List (Event Nat)) (number : Nat) : Block Nat :=
  { witness := "alice"
    timestamp := 300 + blockInterval * number
    transactions := events
    expired := []
    processes := [] }

/-- The blocks before the first round boundary. -/
def blocks (events : List (Event Nat)) : List (Block Nat) :=
  block events 1 :: (List.range 19).map (fun place => block [] (place + 2))

/-- The states at the start, before the first round boundary and on it. -/
def boundary (events : List (Event Nat)) :
    Except ScheduleError (State Nat × State Nat × State Nat) := do
  let start ← genesis 300 props [("alice", some 1), ("bob", some 2)]
  let state ← (blocks events).foldlM State.applyBlock start
  let middle ← state.beforeSchedule (block [] 21)
  pure (start, state, middle)

theorem boundary_ok {events : List (Event Nat)} {states : State Nat × State Nat × State Nat}
    (reached : boundary events = .ok states) :
    genesis 300 props [("alice", some 1), ("bob", some 2)] = .ok states.1 ∧
      (blocks events).foldlM State.applyBlock states.1 = .ok states.2.1 ∧
      states.2.1.beforeSchedule (block [] 21) = .ok states.2.2 := by
  simp only [boundary, bind_ok_iff, pure_ok_iff] at reached
  obtain ⟨start, founded, state, ran, middle, ready, rfl⟩ := reached
  exact ⟨founded, ran, ready⟩

/-- With both keys in place the round is scheduled. -/
theorem first_round_scheduled :
    ∃ start state middle, genesis 300 props [("alice", some 1), ("bob", some 2)] = .ok start ∧
      (blocks []).foldlM State.applyBlock start = .ok state ∧
      state.beforeSchedule (block [] 21) = .ok middle ∧
      ∃ next voted timeshare, middle.updateWitnessSchedule = .ok next ∧
        Scheduled middle next voted timeshare := by
  have checked : (do
      let (_, _, middle) ← boundary []
      pure (middle.headBlockNum % maxWitnesses,
        middle.witnesses.all (fun witness => witness.votes ≠ -1 && witness.enabled))) =
      (.ok (0, true) : Except ScheduleError (Nat × Bool)) := by
    decide +kernel
  simp only [bind_ok_iff, pure_ok_iff, Prod.mk.injEq, List.all_eq_true, Bool.and_eq_true,
    decide_eq_true_eq] at checked
  obtain ⟨states, reached, round, each⟩ := checked
  obtain ⟨founded, ran, ready⟩ := boundary_ok reached
  exact ⟨_, _, _, founded, ran, ready, (boundary_scheduled_iff founded ran ready round
    (fun witness member => (each witness member).1)).mpr
      (Or.inr (fun witness member => (each witness member).2))⟩

/-- The second witness takes back its key in the first block. On the round boundary one
witness is picked where two are expected, and the update throws. -/
theorem disabled_witness_stops_schedule :
    ∃ start state middle, genesis 300 props [("alice", some 1), ("bob", some 2)] = .ok start ∧
      (blocks [.witnessUpdate "bob" none props]).foldlM State.applyBlock start = .ok state ∧
      state.beforeSchedule (block [] 21) = .ok middle ∧
      middle.headBlockNum % maxWitnesses = 0 ∧ middle.Laps ∧
      middle.updateWitnessSchedule = .error (.activeWitnesses 1 2) := by
  have checked : (do
      let (_, _, middle) ← boundary [.witnessUpdate "bob" none props]
      pure (middle.headBlockNum % maxWitnesses,
        middle.witnesses.all (fun witness => witness.votes ≠ -1),
        match middle.updateWitnessSchedule with
        | .ok _ => none
        | .error error => some error)) =
      (.ok (0, true, some (.activeWitnesses 1 2)) :
        Except ScheduleError (Nat × Bool × Option ScheduleError)) := by
    decide +kernel
  simp only [bind_ok_iff, pure_ok_iff, Prod.mk.injEq, List.all_eq_true, decide_eq_true_eq] at checked
  obtain ⟨states, reached, round, laps, thrown⟩ := checked
  obtain ⟨founded, ran, ready⟩ := boundary_ok reached
  refine ⟨_, _, _, founded, ran, ready, round, laps, ?_⟩
  split at thrown
  · exact absurd thrown (by simp)
  · rename_i error failed
    rw [failed, Option.some.inj thrown]

end TwoWitnesses

end DeipChain.WitnessSchedule
