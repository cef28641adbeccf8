import DeipChain.Chain.ScheduleRounds

/-!
# The virtual time of the witnesses

A witness runs a lap whose length is the greatest 128-bit number, at the speed of its
votes. It keeps the position that it had when its votes last changed, the time of that
change, and the time at which it will be through. A round moves the time on to the
scheduled time of the last witness it looks at, and these witnesses start anew. When a
scheduled time does not fit, it is taken as the greatest one, or the time starts again at
zero for all witnesses.

The scheduled time of a witness is never later than the time it needs for the rest of its
lap, and the current time is never later than that. So no witness goes beyond its lap, and
the sums and products in 128 bits are the exact ones unless the code sees that they wrap.
-/
namespace DeipChain.WitnessSchedule

open Result Selection Chain

variable {Key : Type}

/-- The parts of a block that write to the witnesses, in the order they come. -/
inductive Move (Key : Type) where
  | event (event : Event Key)
  | globalData (block : Block Key)
  | signing (block : Block Key)
  | schedule

/-- What a part of a block does. -/
def State.applyMove (state : State Key) : Move Key → Except ScheduleError (State Key)
  | .event event => state.applyEvent event
  | .globalData block => state.updateGlobalDynamicData block
  | .signing block => state.updateSigningWitness block
  | .schedule => state.updateWitnessSchedule

/-- The parts of a block. -/
def Block.moves (block : Block Key) : List (Move Key) :=
  block.transactions.map .event ++ [.globalData block, .signing block] ++
    block.expired.map .event ++ [.schedule] ++ block.processes.map .event

/-- A block with a valid header does what its parts do. -/
theorem applyBlock_moves (state : State Key) (block : Block Key) :
    state.applyBlock block = (do
      state.validateBlockHeader block
      block.moves.foldlM State.applyMove state) := by
  simp [State.applyBlock, State.beforeSchedule, Block.moves, State.applyMove, List.foldlM_map]

/-- The votes that a part of a block adjusts do not become negative. -/
def Move.KeepsVotes (state : State Key) : Move Key → Prop
  | .event (.adjustWitnessVote owner delta _) =>
    ∀ witness ∈ state.witnesses, witness.owner = owner → 0 ≤ witness.votes + delta
  | _ => True

instance (state : State Key) : (move : Move Key) → Decidable (move.KeepsVotes state)
  | .event (.adjustWitnessVote owner delta _) => inferInstanceAs (Decidable
    (∀ witness ∈ state.witnesses, witness.owner = owner → 0 ≤ witness.votes + delta))
  | .event (.witnessUpdate _ _ _) => .isTrue trivial
  | .event (.reportVersion _ _) => .isTrue trivial
  | .event (.voteHardfork _ _ _) => .isTrue trivial
  | .globalData _ => .isTrue trivial
  | .signing _ => .isTrue trivial
  | .schedule => .isTrue trivial

/-!
## One witness
-/

/-- A witness on its lap at a time: it will be through, but not later than it needs for
the rest of its lap. -/
structure OnCourse (now : Nat) (witness : Witness Key) : Prop where
  counted : 0 ≤ witness.votes ∧ witness.votes < 2 ^ 63
  updated : witness.virtualLastUpdate ≤ now
  position : witness.virtualPosition ≤ virtualScheduleLapLength
  scheduled : now ≤ witness.virtualScheduledTime
  reached : witness.virtualScheduledTime ≤ virtualScheduleLapLength
  lap : witness.virtualScheduledTime ≤ witness.virtualLastUpdate +
    (virtualScheduleLapLength - witness.virtualPosition) / (witness.votes.toNat + 1)

theorem toUint128_of_nat {value : Nat} (fits : value ≤ virtualScheduleLapLength) :
    toUint128 value = value := by
  rw [virtualScheduleLapLength] at fits
  rw [toUint128]
  omega

theorem toUint128_of_votes {votes : Int} (counted : 0 ≤ votes ∧ votes < 2 ^ 63) :
    toUint128 votes = votes.toNat ∧ toUint128 (votes + 1) = votes.toNat + 1 := by
  rw [toUint128, toUint128]
  omega

/-- A sum that wraps is less than what was added to, and only then. -/
theorem wraps_iff {time step : Nat} (early : time ≤ virtualScheduleLapLength)
    (short : step ≤ virtualScheduleLapLength) :
    (time + step) % 2 ^ 128 < time ↔ virtualScheduleLapLength < time + step := by
  rw [virtualScheduleLapLength] at *
  omega

/-- No witness goes beyond its lap. -/
theorem OnCourse.travelled {now : Nat} {witness : Witness Key} (course : OnCourse now witness) :
    witness.virtualPosition + witness.votes.toNat * (now - witness.virtualLastUpdate) ≤
      virtualScheduleLapLength := by
  have elapsed : now - witness.virtualLastUpdate ≤
      (virtualScheduleLapLength - witness.virtualPosition) / (witness.votes.toNat + 1) :=
    Nat.sub_le_iff_le_add'.mpr (course.scheduled.trans course.lap)
  have rest : witness.votes.toNat * (now - witness.virtualLastUpdate) ≤
      virtualScheduleLapLength - witness.virtualPosition :=
    calc witness.votes.toNat * (now - witness.virtualLastUpdate)
        ≤ (witness.votes.toNat + 1) * ((virtualScheduleLapLength - witness.virtualPosition) /
          (witness.votes.toNat + 1)) := Nat.mul_le_mul (Nat.le_succ _) elapsed
      _ ≤ virtualScheduleLapLength - witness.virtualPosition := Nat.mul_div_le _ _
  have position := course.position
  omega

theorem lap_eq {votes : Int} {step : Nat} (counted : 0 ≤ votes ∧ votes < 2 ^ 63)
    (defined : lap votes = .ok step) :
    step = virtualScheduleLapLength / (votes.toNat + 1) := by
  rw [WitnessSchedule.lap, (toUint128_of_votes counted).2, divide, if_neg (Nat.succ_ne_zero _),
    Except.ok.injEq] at defined
  exact defined.symm

/-- A witness that starts a lap at a time. -/
theorem OnCourse.start {now step : Nat} {witness : Witness Key}
    (counted : 0 ≤ witness.votes ∧ witness.votes < 2 ^ 63)
    (updated : witness.virtualLastUpdate = now) (position : witness.virtualPosition = 0)
    (length : step = virtualScheduleLapLength / (witness.votes.toNat + 1))
    (scheduled : witness.virtualScheduledTime = now + step)
    (fits : now + step ≤ virtualScheduleLapLength) : OnCourse now witness where
  counted := counted
  updated := updated.le
  position := position ▸ Nat.zero_le _
  scheduled := scheduled ▸ Nat.le_add_right _ _
  reached := scheduled ▸ fits
  lap := by rw [scheduled, updated, position, Nat.sub_zero, length]

/-- The rest of the lap of a witness whose votes change. -/
theorem OnCourse.change {now position step : Nat} {votes : Int} {witness : Witness Key}
    (counted : 0 ≤ votes ∧ votes < 2 ^ 63) (now_le : now ≤ virtualScheduleLapLength)
    (position_le : position ≤ virtualScheduleLapLength)
    (length : step = (virtualScheduleLapLength - position) / (votes.toNat + 1))
    (set : witness.votes = votes ∧ witness.virtualPosition = position ∧
      witness.virtualLastUpdate = now ∧ witness.virtualScheduledTime =
        if (now + step) % 2 ^ 128 < now then 2 ^ 128 - 1 else (now + step) % 2 ^ 128) :
    OnCourse now witness := by
  obtain ⟨setVotes, setPosition, setUpdate, setTime⟩ := set
  have short : step ≤ virtualScheduleLapLength :=
    length ▸ (Nat.div_le_self _ _).trans (Nat.sub_le _ _)
  have scheduled : witness.virtualScheduledTime = min (now + step) virtualScheduleLapLength := by
    rw [setTime]
    have wraps := wraps_iff now_le short
    split
    · rename_i wrapped
      have beyond := wraps.mp wrapped
      rw [virtualScheduleLapLength] at *
      omega
    · rename_i fits
      have within := mt wraps.mpr fits
      rw [virtualScheduleLapLength] at *
      omega
  constructor
  · exact setVotes ▸ counted
  · exact setUpdate.le
  · exact setPosition ▸ position_le
  · rw [scheduled]
    omega
  · rw [scheduled]
    omega
  · rw [scheduled, setUpdate, setPosition, setVotes, ← length]
    exact Nat.min_le_left _ _

/-- A new witness has a lap before it that it does not run. -/
theorem OnCourse.new {now : Nat} (early : now ≤ virtualScheduleLapLength) (id : Nat)
    (owner : String) (signingKey : Option Key) (mark : ScheduleType) (props : ChainProperties)
    (genesisTime : Nat) : OnCourse now (.new id owner signingKey mark props genesisTime) where
  counted := ⟨Int.le_refl 0, show (0 : Int) < 2 ^ 63 by decide⟩
  updated := Nat.zero_le _
  position := Nat.zero_le _
  scheduled := early
  reached := Nat.le_refl _
  lap := show 2 ^ 128 - 1 ≤ 0 + (virtualScheduleLapLength - 0) / ((0 : Int).toNat + 1) by decide

/-- The differences, the product and the sum of `adjust_witness_vote` are the exact ones. -/
structure Exact (now : Nat) (witness : Witness Key) : Prop where
  elapsed : toUint128 ((now : Int) - witness.virtualLastUpdate) = now - witness.virtualLastUpdate
  position : (witness.virtualPosition + toUint128 witness.votes *
      toUint128 ((now : Int) - witness.virtualLastUpdate)) % 2 ^ 128 =
    witness.virtualPosition + witness.votes.toNat * (now - witness.virtualLastUpdate)
  rest : toUint128 ((virtualScheduleLapLength : Int) - ↑(witness.virtualPosition +
      witness.votes.toNat * (now - witness.virtualLastUpdate))) =
    virtualScheduleLapLength - (witness.virtualPosition +
      witness.votes.toNat * (now - witness.virtualLastUpdate))

theorem toUint128_sub {greater less : Nat} (order : less ≤ greater)
    (fits : greater ≤ virtualScheduleLapLength) :
    toUint128 ((greater : Int) - less) = greater - less := by
  rw [← Int.ofNat_sub order]
  exact toUint128_of_nat ((Nat.sub_le _ _).trans fits)

theorem OnCourse.exact {now : Nat} {witness : Witness Key} (course : OnCourse now witness)
    (early : now ≤ virtualScheduleLapLength) : Exact now witness := by
  have elapsed := toUint128_sub course.updated early
  constructor
  · exact elapsed
  · rw [elapsed, (toUint128_of_votes course.counted).1]
    apply Nat.mod_eq_of_lt
    exact course.travelled.trans_lt (by decide)
  · exact toUint128_sub course.travelled (Nat.le_refl _)

/-!
## All witnesses
-/

/-- All witnesses are on their laps. -/
structure Coursed (state : State Key) : Prop where
  numbered : state.witnesses.map Witness.id = List.range state.witnesses.length
  now : state.schedule.currentVirtualTime ≤ virtualScheduleLapLength
  each : ∀ witness ∈ state.witnesses, OnCourse state.schedule.currentVirtualTime witness

/-- What the lap of a witness depends on. -/
def Witness.course (witness : Witness Key) : Nat × Int × Nat × Nat × Nat :=
  (witness.id, witness.votes, witness.virtualLastUpdate, witness.virtualPosition,
    witness.virtualScheduledTime)

theorem OnCourse.of_course {now : Nat} {witness other : Witness Key}
    (course : OnCourse now witness) (same : other.course = witness.course) :
    OnCourse now other := by
  simp only [Witness.course, Prod.mk.injEq] at same
  obtain ⟨-, votes, updated, position, scheduled⟩ := same
  constructor
  · exact votes ▸ course.counted
  · exact updated ▸ course.updated
  · exact position ▸ course.position
  · exact scheduled ▸ course.scheduled
  · exact scheduled ▸ course.reached
  · rw [scheduled, updated, position, votes]
    exact course.lap

theorem ids_of_course {state next : State Key}
    (views : next.witnesses.map Witness.course = state.witnesses.map Witness.course) :
    next.witnesses.map Witness.id = state.witnesses.map Witness.id := by
  have mapped := congrArg (List.map (fun known => known.1)) views
  rwa [List.map_map, List.map_map] at mapped

/-- A step that has nothing to do with the laps. -/
theorem Coursed.of_course {state next : State Key} (coursed : Coursed state)
    (views : next.witnesses.map Witness.course = state.witnesses.map Witness.course)
    (time : next.schedule.currentVirtualTime = state.schedule.currentVirtualTime) :
    Coursed next where
  numbered := by
    have length := congrArg List.length views
    rw [List.length_map, List.length_map] at length
    rw [ids_of_course views, coursed.numbered, length]
  now := time ▸ coursed.now
  each := by
    intro witness member
    obtain ⟨before, registered, same⟩ := exists_of_map views member
    rw [time]
    exact (coursed.each before registered).of_course same

theorem Coursed.modify {state : State Key} (coursed : Coursed state)
    {change : Witness Key → Witness Key} (keeps : ∀ witness, (change witness).course = witness.course)
    (id : Nat) : Coursed (state.modifyWitness id change) :=
  coursed.of_course (modifyWitness_map keeps id state) rfl

/-- A change that puts a witness on a new course. -/
theorem Coursed.replace {state : State Key} (coursed : Coursed state) {id : Nat}
    {change : Witness Key → Witness Key} (same : ∀ witness, (change witness).id = witness.id)
    (course : ∀ witness, OnCourse state.schedule.currentVirtualTime (change witness)) :
    Coursed (state.modifyWitness id change) where
  numbered := by
    rw [modifyWitness_map same, coursed.numbered, State.modifyWitness, List.length_map]
  now := coursed.now
  each := by
    intro witness member
    simp only [State.modifyWitness, List.mem_map] at member
    obtain ⟨before, listed, rfl⟩ := member
    split
    · exact course before
    · exact coursed.each before listed

theorem witnessUpdate_coursed {owner : String} {signingKey : Option Key} {props : ChainProperties}
    {state : State Key} (coursed : Coursed state) :
    Coursed (state.witnessUpdate owner signingKey props) := by
  rw [State.witnessUpdate]
  split
  · apply coursed.modify
    exact fun _ => rfl
  · constructor
    · simp [coursed.numbered, List.range_succ, Witness.new]
    · exact coursed.now
    · intro witness member
      rcases List.mem_append.mp member with old | new
      · exact coursed.each witness old
      · rw [List.mem_singleton.mp new]
        exact OnCourse.new coursed.now _ _ _ _ _ _

theorem adjustWitnessVote_coursed {owner : String} {delta total : Int} {state next : State Key}
    (coursed : Coursed state)
    (keeps : ∀ witness ∈ state.witnesses, witness.owner = owner → 0 ≤ witness.votes + delta)
    (ran : state.adjustWitnessVote owner delta total = .ok next) : Coursed next := by
  simp only [State.adjustWitnessVote, adjustedVotes, bind_ok_iff, require_ok_iff, pure_ok_iff,
    exists_const] at ran
  obtain ⟨witness, lookup, votes, ⟨bounded, -, rfl⟩, rest, divided, rfl⟩ := ran
  rw [getWitness_ok_iff] at lookup
  have registered := List.mem_of_find?_eq_some lookup
  have owned : witness.owner = owner := by simpa using List.find?_some lookup
  have counted : 0 ≤ witness.votes + delta ∧ witness.votes + delta < 2 ^ 63 :=
    ⟨keeps witness registered owned, bounded.2⟩
  have course := coursed.each witness registered
  have exact_ := course.exact coursed.now
  rw [exact_.position, exact_.rest, (toUint128_of_votes counted).2, divide,
    if_neg (Nat.succ_ne_zero _), Except.ok.injEq] at divided
  rw [exact_.position]
  apply coursed.replace
  · exact fun _ => rfl
  · intro found
    exact OnCourse.change counted coursed.now course.travelled divided.symm ⟨rfl, rfl, rfl, rfl⟩

/-!
## A round
-/

/-- A witness that is still under way at a later time. -/
theorem OnCourse.later {now later : Nat} {witness : Witness Key} (course : OnCourse now witness)
    (order : now ≤ later) (scheduled : later ≤ witness.virtualScheduledTime) :
    OnCourse later witness :=
  { course with updated := course.updated.trans order, scheduled := scheduled }

theorem marked_course (state : State Key) :
    state.marked.witnesses.map Witness.course = state.witnesses.map Witness.course := by
  have each (mark : ScheduleType) (picked : List (Witness Key)) (state : State Key) :
      (state.markSchedule mark picked).witnesses.map Witness.course =
        state.witnesses.map Witness.course := by
    induction picked generalizing state with
    | nil => rfl
    | cons witness rest hypothesis =>
      refine (hypothesis _).trans ?_
      apply modifyWitness_map
      exact fun _ => rfl
  exact (each _ _ _).trans (each _ _ _)

/-- The time of the next round is not before the current one, and the witnesses that the
round does not look at are scheduled later. -/
theorem newVirtualTime_between {state : State Key} (coursed : Coursed state) :
    state.schedule.currentVirtualTime ≤ state.newVirtualTime ∧
      state.newVirtualTime ≤ virtualScheduleLapLength ∧
      ∀ witness ∈ state.witnesses, witness ∈ state.timeshare.1 ∨
        state.newVirtualTime ≤ witness.virtualScheduledTime := by
  have sorted := List.pairwise_insertionSort soonest state.witnesses
  obtain ⟨rest, split⟩ := selectTimeshare_front (state.voted.map Witness.id)
    (maxWitnesses - state.voted.length) (state.witnesses.insertionSort soonest)
  rw [← State.timeshare] at split
  have listed : ∀ witness, witness ∈ state.witnesses ↔ witness ∈ state.timeshare.1 ∨ witness ∈ rest := by
    intro witness
    rw [← List.mem_append, split, List.mem_insertionSort]
  rw [State.newVirtualTime]
  cases last : state.timeshare.1.getLast? with
  | none =>
    refine ⟨Nat.le_refl _, coursed.now, ?_⟩
    intro witness member
    exact Or.inr (coursed.each witness member).scheduled
  | some witness =>
    have passed := List.mem_of_getLast? last
    have course := coursed.each witness ((listed witness).mpr (Or.inl passed))
    refine ⟨course.scheduled, course.reached, ?_⟩
    intro other member
    rcases (listed other).mp member with looked | later
    · exact Or.inl looked
    · right
      rw [← split] at sorted
      have order := (List.pairwise_append.mp sorted).2.2 witness passed other later
      rw [soonest] at order
      change witness.virtualScheduledTime ≤ other.virtualScheduledTime
      omega

/-- While the laps are started, every witness has started or is still to start. -/
theorem advance_course (now : Nat) {newVirtualTime : Nat}
    (early : newVirtualTime ≤ virtualScheduleLapLength)
    {processed : List (Witness Key)} {state : State Key} {result : Bool × State Key}
    (each : ∀ witness ∈ state.witnesses, OnCourse newVirtualTime witness ∨
      OnCourse now witness ∧ witness.id ∈ processed.map Witness.id)
    (votes : ∀ witness ∈ state.witnesses, ∀ other ∈ processed, witness.id = other.id →
      witness.votes = other.votes)
    (ran : advance newVirtualTime processed state = .ok result) (through : result.1 = false) :
    ∀ witness ∈ result.2.witnesses, OnCourse newVirtualTime witness := by
  induction processed generalizing state with
  | nil =>
    rw [advance, Except.ok.injEq] at ran
    subst ran
    intro witness member
    rcases each witness member with course | ⟨-, waiting⟩
    · exact course
    · exact absurd waiting List.not_mem_nil
  | cons first rest hypothesis =>
    rw [advance, bind_ok_iff] at ran
    obtain ⟨step, defined, ran⟩ := ran
    dsimp only at ran
    split at ran
    · rw [pure_ok_iff] at ran
      subst ran
      cases through
    · rename_i fits
      apply hypothesis _ _ ran
      · intro witness member
        simp only [State.modifyWitness, List.mem_map] at member
        obtain ⟨before, registered, rfl⟩ := member
        by_cases started : before.id = first.id
        · rw [if_pos started]
          left
          have counted : 0 ≤ before.votes ∧ before.votes < 2 ^ 63 := by
            rcases each before registered with course | ⟨course, -⟩
            · exact course.counted
            · exact course.counted
          rw [← votes before registered first List.mem_cons_self started] at defined
          have length := lap_eq counted defined
          have short : step ≤ virtualScheduleLapLength := length ▸ Nat.div_le_self _ _
          have within := mt (wraps_iff early short).mpr fits
          refine OnCourse.start counted rfl rfl length ?_ (Nat.not_lt.mp within)
          exact Nat.mod_eq_of_lt ((Nat.not_lt.mp within).trans_lt (by decide))
        · rw [if_neg started]
          refine (each before registered).imp_right (And.imp_right ?_)
          intro waiting
          exact (List.mem_cons.mp waiting).resolve_left started
      · intro witness member other waiting same
        simp only [State.modifyWitness, List.mem_map] at member
        obtain ⟨before, registered, rfl⟩ := member
        have kept := votes before registered other (List.mem_cons_of_mem _ waiting)
        split at same
        · rw [if_pos ‹_›]
          exact kept same
        · rw [if_neg ‹_›]
          exact kept same

/-- Without an overflow the round ends with all witnesses on their laps. -/
theorem advanced_course {state : State Key} (coursed : Coursed state) {result : Bool × State Key}
    (advanced : advance state.newVirtualTime state.timeshare.1 state.marked = .ok result)
    (through : result.1 = false) :
    ∀ witness ∈ result.2.witnesses, OnCourse state.newVirtualTime witness := by
  obtain ⟨order, early, later⟩ := newVirtualTime_between coursed
  have listed : ∀ witness ∈ state.timeshare.1, witness ∈ state.witnesses := fun witness member =>
    (List.mem_insertionSort soonest).mp ((selectTimeshare_front _ _ _).subset member)
  have distinct : (state.witnesses.map Witness.id).Nodup :=
    coursed.numbered ▸ List.nodup_range
  refine advance_course state.schedule.currentVirtualTime early ?_ ?_ advanced through
  · intro witness member
    obtain ⟨before, registered, same⟩ := exists_of_map (marked_course state) member
    have course := (coursed.each before registered).of_course same
    simp only [Witness.course, Prod.mk.injEq] at same
    rcases later before registered with looked | scheduled
    · right
      constructor
      · exact course
      · rw [same.1]
        exact List.mem_map_of_mem looked
    · left
      exact course.later order (same.2.2.2.2 ▸ scheduled)
  · intro witness member other looked sameId
    obtain ⟨before, registered, same⟩ := exists_of_map (marked_course state) member
    simp only [Witness.course, Prod.mk.injEq] at same
    have one : before = other :=
      List.inj_on_of_nodup_map distinct registered (listed other looked) (same.1.symm.trans sameId)
    exact one ▸ same.2.1

/-- After an overflow all witnesses start at zero. -/
theorem resetVirtualScheduleTime_course {state next : State Key}
    (counted : ∀ witness ∈ state.witnesses, 0 ≤ witness.votes ∧ witness.votes < 2 ^ 63)
    (ran : state.resetVirtualScheduleTime = .ok next) :
    ∀ witness ∈ next.witnesses, OnCourse 0 witness := by
  simp only [State.resetVirtualScheduleTime, bind_ok_iff, pure_ok_iff] at ran
  obtain ⟨reset, mapped, rfl⟩ := ran
  intro witness member
  obtain ⟨before, registered, changed⟩ := exists_of_mem_mapM mapped member
  simp only [bind_ok_iff, pure_ok_iff] at changed
  obtain ⟨step, defined, rfl⟩ := changed
  have length := lap_eq (counted before registered) defined
  refine OnCourse.start (counted before registered) rfl rfl length (Nat.zero_add _).symm ?_
  rw [Nat.zero_add, length]
  exact Nat.div_le_self _ _

theorem updateMedianWitnessProps_time {state next : State Key}
    (ran : state.updateMedianWitnessProps = .ok next) :
    next.schedule.currentVirtualTime = state.schedule.currentVirtualTime := by
  simp only [State.updateMedianWitnessProps, bind_ok_iff, pure_ok_iff] at ran
  obtain ⟨_, -, _, -, _, -, rfl⟩ := ran
  rfl

theorem reschedule_coursed {state next : State Key} (coursed : Coursed state)
    (ran : state.reschedule = .ok next) : Coursed next := by
  have unhurried := reschedule_unhurried ran
  obtain ⟨result, advanced, timed, reset, -, counted, ran, updated⟩ := reschedule_ok_iff.mp ran
  have witnesses : next.witnesses = timed.witnesses :=
    (updateMedianWitnessProps_same updated).1.trans (countVersions_witnesses ran).1
  have time := updateMedianWitnessProps_time updated
  have numbered : next.witnesses.map Witness.id = List.range next.witnesses.length := by
    have ids := unhurried.views Witness.id (fun _ _ _ _ _ => rfl)
    have length := congrArg List.length ids
    rw [List.length_map, List.length_map] at length
    rw [ids, coursed.numbered, length]
  cases overflown : result.1 with
  | false =>
    rw [overflown, if_neg Bool.false_ne_true, pure_ok_iff] at reset
    rw [overflown] at time
    subst reset
    refine ⟨numbered, ?_, ?_⟩
    · rw [time]
      exact (newVirtualTime_between coursed).2.1
    · rw [time, witnesses]
      exact advanced_course coursed advanced overflown
  | true =>
    rw [overflown, if_pos rfl] at reset
    rw [overflown] at time
    have votes : ∀ witness ∈ result.2.witnesses, 0 ≤ witness.votes ∧ witness.votes < 2 ^ 63 := by
      intro witness member
      have retimed := (marked_retimed state).trans (advance_retimed advanced)
      obtain ⟨before, registered, same⟩ :=
        exists_of_map (retimed.views Witness.votes (fun _ _ _ _ _ => rfl)) member
      exact same ▸ (coursed.each before registered).counted
    refine ⟨numbered, ?_, ?_⟩
    · rw [time]
      exact Nat.zero_le _
    · rw [time, witnesses]
      exact resetVirtualScheduleTime_course votes reset

/-!
## Runs
-/

theorem missSlot_coursed {block : Block Key} {state next : State Key} {slot : Nat}
    (coursed : Coursed state) (ran : state.missSlot block slot = .ok next) : Coursed next := by
  rw [State.missSlot, bind_ok_iff] at ran
  obtain ⟨missed, -, ran⟩ := ran
  split at ran
  · rw [pure_ok_iff] at ran
    exact ran ▸ coursed
  · rw [pure_ok_iff] at ran
    subst ran
    apply coursed.modify
    exact fun _ => rfl

theorem applyEvent_coursed {event : Event Key} {state next : State Key} (coursed : Coursed state)
    (keeps : Move.KeepsVotes state (.event event)) (ran : state.applyEvent event = .ok next) :
    Coursed next := by
  cases event with
  | witnessUpdate owner signingKey props =>
    rw [State.applyEvent, pure_ok_iff] at ran
    exact ran ▸ witnessUpdate_coursed coursed
  | adjustWitnessVote owner delta total => exact adjustWitnessVote_coursed coursed keeps ran
  | reportVersion owner version =>
    simp only [State.applyEvent, bind_ok_iff, pure_ok_iff] at ran
    obtain ⟨witness, -, rfl⟩ := ran
    apply coursed.modify
    exact fun _ => rfl
  | voteHardfork owner version at_ =>
    simp only [State.applyEvent, bind_ok_iff, pure_ok_iff] at ran
    obtain ⟨witness, -, rfl⟩ := ran
    apply coursed.modify
    exact fun _ => rfl

/-- Every part of a block that leaves no negative votes keeps the witnesses on their laps. -/
theorem applyMove_coursed {move : Move Key} {state next : State Key} (coursed : Coursed state)
    (keeps : move.KeepsVotes state) (ran : state.applyMove move = .ok next) : Coursed next := by
  cases move with
  | event event => exact applyEvent_coursed coursed keeps ran
  | globalData block =>
    simp only [State.applyMove, State.updateGlobalDynamicData, bind_ok_iff, pure_ok_iff] at ran
    obtain ⟨slotted, missed, rfl⟩ := ran
    have before : Coursed slotted := foldlM_invariant (fun _ reached => Coursed reached)
      (fun _ _ _ _ before stepped => missSlot_coursed before stepped) coursed missed
    exact before.of_course rfl rfl
  | signing block =>
    simp only [State.applyMove, State.updateSigningWitness, bind_ok_iff, pure_ok_iff] at ran
    obtain ⟨witness, -, rfl⟩ := ran
    apply coursed.modify
    exact fun _ => rfl
  | schedule =>
    rw [State.applyMove, State.updateWitnessSchedule] at ran
    split at ran
    · exact reschedule_coursed coursed ran
    · exact Except.ok.inj ran ▸ coursed

theorem genesis_coursed {genesisTime : Nat} {props : ChainProperties}
    {candidates : List (String × Option Key)} {start : State Key}
    (founded : genesis genesisTime props candidates = .ok start) : Coursed start := by
  have numbered := (genesis_registered founded).numbered
  have fresh := genesis_new founded
  simp only [genesis, bind_ok_iff, pure_ok_iff] at founded
  obtain ⟨witnesses, added, rfl⟩ := founded
  refine ⟨numbered, Nat.zero_le _, ?_⟩
  intro witness member
  obtain ⟨id, owner, signingKey, rfl⟩ := fresh witness member
  exact OnCourse.new (Nat.zero_le _) _ _ _ _ _ _

/-- From every genesis, whatever the order of creations, adjusted votes and rounds, as long
as no votes become negative: every witness is scheduled for the current virtual time or
later, was last updated before it, and has not gone beyond its lap. So `adjust_witness_vote`
computes with the exact numbers, and a scheduled time that does not fit is seen. -/
theorem virtual_time_kept {genesisTime : Nat} {props : ChainProperties}
    {candidates : List (String × Option Key)} {start state : State Key} {moves : List (Move Key)}
    (founded : genesis genesisTime props candidates = .ok start)
    (keeps : Along State.applyMove Move.KeepsVotes start moves)
    (ran : moves.foldlM State.applyMove start = .ok state) :
    ∀ witness ∈ state.witnesses,
      state.schedule.currentVirtualTime ≤ witness.virtualScheduledTime ∧
        witness.virtualLastUpdate ≤ state.schedule.currentVirtualTime ∧
        (witness.virtualPosition : Int) + witness.votes *
            ((state.schedule.currentVirtualTime : Int) - witness.virtualLastUpdate) ≤
          virtualScheduleLapLength ∧
        Exact state.schedule.currentVirtualTime witness ∧
        (∀ step ≤ virtualScheduleLapLength,
          (state.schedule.currentVirtualTime + step) % 2 ^ 128 < state.schedule.currentVirtualTime ↔
            virtualScheduleLapLength < state.schedule.currentVirtualTime + step) ∧
        ∀ step, lap witness.votes = .ok step →
          ((state.newVirtualTime + step) % 2 ^ 128 < state.newVirtualTime ↔
            virtualScheduleLapLength < state.newVirtualTime + step) := by
  have coursed : Coursed state := foldlM_along Coursed
    (fun _ _ _ keeps before stepped => applyMove_coursed before keeps stepped) keeps
    (genesis_coursed founded) ran
  intro witness member
  have course := coursed.each witness member
  refine ⟨course.scheduled, course.updated, ?_, course.exact coursed.now,
    fun step short => wraps_iff coursed.now short, ?_⟩
  · have travelled := Int.ofNat_le.mpr course.travelled
    rw [Int.natCast_add, Int.natCast_mul, Int.natCast_sub course.updated,
      Int.toNat_of_nonneg course.counted.1] at travelled
    exact travelled
  · intro step defined
    have length := lap_eq course.counted defined
    exact wraps_iff (newVirtualTime_between coursed).2.1 (length ▸ Nat.div_le_self _ _)

namespace TwoWitnesses

/-- Votes come in, a round is scheduled, a third witness registers, and votes change in the
middle of a lap. -/
def moves : List (Move Nat) :=
  [.event (.adjustWitnessVote "alice" 6 100), .event (.adjustWitnessVote "bob" 2 100), .schedule,
    .event (.witnessUpdate "carol" (some 3) props), .event (.adjustWitnessVote "alice" (-4) 100),
    .event (.adjustWitnessVote "carol" 9 100)]

/-- No witness goes beyond its lap. -/
theorem moves_on_course :
    ∃ start state, genesis 300 props [("alice", some 1), ("bob", some 2)] = .ok start ∧
      moves.foldlM State.applyMove start = .ok state ∧
      state.schedule.currentVirtualTime = (2 ^ 128 - 1) / 3 ∧
      ∀ witness ∈ state.witnesses,
        state.schedule.currentVirtualTime ≤ witness.virtualScheduledTime ∧
          Exact state.schedule.currentVirtualTime witness := by
  obtain ⟨start, founded, tested⟩ := exists_ok_of_any
    (genesis 300 props [("alice", some 1), ("bob", some 2)])
    (fun start => passes State.applyMove (fun state move => decide (move.KeepsVotes state)) start moves &&
      (moves.foldlM State.applyMove start).toOption.any (fun state =>
        state.schedule.currentVirtualTime = (2 ^ 128 - 1) / 3)) (by decide +kernel)
  rw [Bool.and_eq_true] at tested
  obtain ⟨state, ran, time⟩ := exists_ok_of_any _ _ tested.2
  rw [decide_eq_true_eq] at time
  have keeps := Along.of_passes (fun _ _ passed => of_decide_eq_true passed) tested.1
  refine ⟨start, state, founded, ran, time, ?_⟩
  intro witness member
  obtain ⟨scheduled, -, -, exact_, -⟩ := virtual_time_kept founded keeps ran witness member
  exact ⟨scheduled, exact_⟩

end TwoWitnesses

end DeipChain.WitnessSchedule
