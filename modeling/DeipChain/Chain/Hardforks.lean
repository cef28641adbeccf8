import DeipChain.Chain.Finality
import Mathlib.Data.List.Induction

/-!
# Hardforks

A witness votes for a hardfork in the extensions of the headers that it signs. An update of
the schedule counts the votes of the outgoing round: a version and time that enough of its
witnesses agree on are pending from then on, otherwise nothing is. `process_hardforks` runs
later in every block and applies the hardforks up to the pending one once its time has
come.

A pending hardfork is as old as the last update of the schedule, because every update
replaces or cancels it. So what is applied in a block has been voted for at that update.
-/
namespace DeipChain.WitnessSchedule

open Result Selection Chain

variable {Key : Type}

/-- `hardfork_version`: the major version and the number of the hardfork. -/
def hardforkVersion (major hardfork : Nat) : Nat := major * 2 ^ 24 + hardfork * 2 ^ 16

/-- The assignment to a `hardfork_version` leaves the release out. -/
def hardforkPart (version : Nat) : Nat := version / 2 ^ 16 * 2 ^ 16

/-- `DEIP_NUM_HARDFORKS` -/
def numHardforks : Nat := 1

/-- `_hardfork_times` -/
def hardforkTimes (genesisTime : Nat) : List Nat := [genesisTime, 1572089400]

/-- `_hardfork_versions` -/
def hardforkVersions : List Nat := [hardforkVersion 0 0, hardforkVersion 0 1]

/-- The version of a hardfork. -/
def versionOf (hardfork : Nat) : Nat := hardforkVersions[hardfork]?.getD 0

/-- `block_header_extensions` -/
inductive Extension where
  | void
  | version (reported : Nat)
  | hardforkVersionVote (version at_ : Nat)
  deriving DecidableEq

/-- What an operation or a process of a block does to a witness. -/
inductive Change (Key : Type) where
  | witnessUpdate (owner : String) (signingKey : Option Key) (props : ChainProperties)
  | adjustWitnessVote (owner : String) (delta total : Int)

def Change.event : Change Key → Event Key
  | .witnessUpdate owner signingKey props => .witnessUpdate owner signingKey props
  | .adjustWitnessVote owner delta total => .adjustWitnessVote owner delta total

/-- A block with the extensions of its header and what its parts do to the witnesses, the
processes before and after the hardforks apart. -/
structure SignedBlock (Key : Type) where
  witness : String
  timestamp : Nat
  extensions : List Extension
  transactions : List (Change Key)
  expired : List (Change Key)
  processes : List (Change Key)
  later : List (Change Key)

/-- The header of a block. -/
def SignedBlock.header (block : SignedBlock Key) : Block Key :=
  { witness := block.witness
    timestamp := block.timestamp
    transactions := []
    expired := []
    processes := [] }

/-- The witnesses with the rest of the `hardfork_property_object`, and the hardforks for
which a `hardfork_operation` has been pushed. -/
structure ForkState (Key : Type) where
  rounds : State Key
  processedHardforks : List Nat
  lastHardfork : Nat
  hardforkOperations : List Nat

/-- One extension of `process_header_extensions`. -/
def Extension.apply (witness : String) (state : State Key) :
    Extension → Except ScheduleError (State Key)
  | .void => .ok state
  | .version reported => state.applyEvent (.reportVersion witness reported)
  | .hardforkVersionVote voted at_ =>
    state.applyEvent (.voteHardfork witness (hardforkPart voted) at_)

def State.applyChange (state : State Key) (change : Change Key) :
    Except ScheduleError (State Key) :=
  state.applyEvent change.event

/-- `_apply_block` up to `update_witness_schedule`. -/
def State.prepare (state : State Key) (block : SignedBlock Key) :
    Except ScheduleError (State Key) := do
  state.validateBlockHeader block.header
  let extended ← block.extensions.foldlM (Extension.apply block.witness) state
  let witness ← extended.getWitness block.witness
  require (extended.currentHardforkVersion ≤ witness.runningVersion) (.staleVersion block.witness)
  let applied ← block.transactions.foldlM State.applyChange extended
  let headed ← applied.updateGlobalDynamicData block.header
  let signed ← headed.updateSigningWitness block.header
  block.expired.foldlM State.applyChange signed

/-- `apply_hardfork` -/
def ForkState.applyHardfork (hardfork : Nat) (state : ForkState Key) :
    Except ScheduleError (ForkState Key) := do
  require (hardfork = state.lastHardfork + 1) (.hardforkOrder hardfork)
  require (state.processedHardforks.length = hardfork) (.hardforkOrder hardfork)
  let time ← expect ((hardforkTimes state.rounds.genesisTime)[hardfork]?) .unknownHardfork
  let processed := state.processedHardforks ++ [time]
  require (processed[hardfork]? = (hardforkTimes state.rounds.genesisTime)[hardfork]?)
    (.hardforkOrder hardfork)
  pure
    { rounds := { state.rounds with currentHardforkVersion := versionOf hardfork }
      processedHardforks := processed
      lastHardfork := hardfork
      hardforkOperations := state.hardforkOperations ++ [hardfork] }

/-- The pending hardfork is newer than the last one and its time has come. -/
def ForkState.due (state : ForkState Key) : Bool :=
  versionOf state.lastHardfork < state.rounds.nextHardfork &&
    state.rounds.nextHardforkTime ≤ state.rounds.time

/-- The loop of `process_hardforks`, with the number of hardforks that are left. -/
def applyHardforks : Nat → ForkState Key → Except ScheduleError (ForkState Key)
  | 0, state => if state.due then .error .unknownHardfork else .ok state
  | left + 1, state =>
    if state.due then do
      let applied ← state.applyHardfork (state.lastHardfork + 1)
      applyHardforks left applied
    else .ok state

/-- `process_hardforks` -/
def ForkState.processHardforks (state : ForkState Key) : Except ScheduleError (ForkState Key) :=
  applyHardforks (numHardforks - state.lastHardfork) state

/-- `_apply_block` -/
def ForkState.applyBlock (state : ForkState Key) (block : SignedBlock Key) :
    Except ScheduleError (ForkState Key) := do
  let prepared ← state.rounds.prepare block
  let scheduled ← prepared.updateWitnessSchedule
  let processed ← block.processes.foldlM State.applyChange scheduled
  let forked ← ForkState.processHardforks { state with rounds := processed }
  let later ← block.later.foldlM State.applyChange forked.rounds
  pure { forked with rounds := later }

/-- The genesis with its `hardfork_property_object`. -/
def ForkState.start (rounds : State Key) : ForkState Key :=
  { rounds := rounds
    processedHardforks := [rounds.genesisTime]
    lastHardfork := 0
    hardforkOperations := [] }

/-!
## The count of the votes
-/

/-- A tally lists what occurs, with how often it does. -/
theorem mem_tally_iff {A : Type} [DecidableEq A] {items : List A} {item : A} {count : Nat} :
    (item, count) ∈ tally items ↔ 0 < count ∧ items.count item = count := by
  induction items generalizing item count with
  | nil =>
    rw [tally, List.count_nil]
    constructor
    · intro member
      exact absurd member List.not_mem_nil
    · omega
  | cons first rest hypothesis =>
    rw [tally, List.count_cons]
    split
    · rename_i before found
      obtain ⟨_, _, split, -⟩ := List.lookup_eq_some_iff.mp found
      have listed : (first, before) ∈ tally rest := by simp [split]
      obtain ⟨-, counted⟩ := hypothesis.mp listed
      rw [List.mem_cons, List.mem_filter, Prod.mk.injEq, hypothesis]
      by_cases same : first = item
      · subst same
        simp
        omega
      · simp [same, Ne.symm same]
    · rename_i missing
      rw [List.lookup_eq_none_iff] at missing
      have absent : rest.count first = 0 := by
        by_contra occurs
        have listed := hypothesis.mpr ⟨Nat.pos_of_ne_zero occurs, rfl⟩
        simpa using missing _ listed
      rw [List.mem_cons, Prod.mk.injEq, hypothesis]
      by_cases same : first = item
      · subst same
        simp [absent]
        omega
      · simp [same, Ne.symm same]

/-- A hardfork that is voted for has enough votes. -/
theorem votedHardfork_count {votes : List (Nat × Nat)} {hardfork : Nat × Nat}
    (voted : votedHardfork votes = some hardfork) :
    hardforkRequiredWitnesses ≤ votes.countP (fun vote => decide (vote = hardfork)) := by
  rw [votedHardfork, Option.map_eq_some_iff] at voted
  obtain ⟨⟨_, count⟩, found, rfl⟩ := voted
  have listed := List.mem_of_find?_eq_some found
  rw [List.mem_insertionSort] at listed
  have enough := List.find?_some found
  have counted := (mem_tally_iff.mp listed).2
  exact (of_decide_eq_true enough).trans counted.ge

/-- The witnesses of the current round that vote for a version and time. -/
def State.votersFor (hardfork : Nat × Nat) (state : State Key) : List String :=
  state.backers (fun witness =>
    decide ((witness.hardforkVersionVote, witness.hardforkTimeVote) = hardfork))

/-- What the count of the versions makes of the pending hardfork. -/
theorem countVersions_pending {state next : State Key} (ran : state.countVersions = .ok next) :
    next.currentHardforkVersion = state.currentHardforkVersion ∧
      next.genesisTime = state.genesisTime ∧
      (next.nextHardfork = state.currentHardforkVersion ∨
        hardforkRequiredWitnesses ≤
          (state.votersFor (next.nextHardfork, next.nextHardforkTime)).length) := by
  simp only [State.countVersions, bind_ok_iff] at ran
  obtain ⟨scheduled, found, ran⟩ := ran
  split at ran
  · rename_i hardfork at_ voted
    rw [pure_ok_iff] at ran
    subst ran
    refine ⟨rfl, rfl, Or.inr ?_⟩
    have enough := votedHardfork_count voted
    rw [List.countP_map] at enough
    exact enough.trans (countP_le_backers _ found)
  · rw [pure_ok_iff] at ran
    subst ran
    exact ⟨rfl, rfl, Or.inl rfl⟩

/-!
## What leaves the pending hardfork alone
-/

/-- The votes are for hardforks, without a release. -/
def State.WholeVotes (state : State Key) : Prop :=
  ∀ witness ∈ state.witnesses, witness.hardforkVersionVote % 2 ^ 16 = 0

/-- A step that does not touch the hardforks. -/
structure Forkless (state next : State Key) : Prop where
  current : next.currentHardforkVersion = state.currentHardforkVersion
  pending : next.nextHardfork = state.nextHardfork ∧ next.nextHardforkTime = state.nextHardforkTime
  genesis : next.genesisTime = state.genesisTime
  whole : state.WholeVotes → next.WholeVotes

theorem Forkless.refl (state : State Key) : Forkless state state := ⟨rfl, ⟨rfl, rfl⟩, rfl, id⟩

theorem Forkless.trans {state middle next : State Key} (first : Forkless state middle)
    (second : Forkless middle next) : Forkless state next where
  current := second.current.trans first.current
  pending := ⟨second.pending.1.trans first.pending.1, second.pending.2.trans first.pending.2⟩
  genesis := second.genesis.trans first.genesis
  whole votes := second.whole (first.whole votes)

theorem Forkless.modify {change : Witness Key → Witness Key}
    (keeps : ∀ witness, witness.hardforkVersionVote % 2 ^ 16 = 0 →
      (change witness).hardforkVersionVote % 2 ^ 16 = 0) (id : Nat) (state : State Key) :
    Forkless state (state.modifyWitness id change) where
  current := rfl
  pending := ⟨rfl, rfl⟩
  genesis := rfl
  whole := by
    intro votes witness member
    simp only [State.modifyWitness, List.mem_map] at member
    obtain ⟨before, registered, rfl⟩ := member
    split
    · exact keeps before (votes before registered)
    · exact votes before registered

theorem foldlM_forkless {A : Type} {step : State Key → A → Except ScheduleError (State Key)}
    (round : ∀ element state next, step state element = .ok next → Forkless state next)
    {elements : List A} {state next : State Key} (ran : elements.foldlM step state = .ok next) :
    Forkless state next :=
  foldlM_invariant (fun _ reached => Forkless state reached)
    (fun element _ _ _ before stepped => before.trans (round element _ _ stepped))
    (Forkless.refl state) ran

theorem applyChange_forkless {change : Change Key} {state next : State Key}
    (ran : state.applyChange change = .ok next) : Forkless state next := by
  cases change with
  | witnessUpdate owner signingKey props =>
    rw [State.applyChange, Change.event, State.applyEvent, pure_ok_iff] at ran
    subst ran
    rw [State.witnessUpdate]
    split
    · apply Forkless.modify
      exact fun _ whole => whole
    · refine ⟨rfl, ⟨rfl, rfl⟩, rfl, ?_⟩
      intro votes witness member
      rcases List.mem_append.mp member with old | new
      · exact votes witness old
      · rw [List.mem_singleton.mp new]
        rfl
  | adjustWitnessVote owner delta total =>
    simp only [State.applyChange, Change.event, State.applyEvent, State.adjustWitnessVote,
      bind_ok_iff, pure_ok_iff] at ran
    obtain ⟨witness, -, _, -, _, -, rfl⟩ := ran
    apply Forkless.modify
    exact fun _ whole => whole

theorem extension_forkless {witness : String} {extension : Extension} {state next : State Key}
    (ran : extension.apply witness state = .ok next) : Forkless state next := by
  cases extension with
  | void => exact Except.ok.inj ran ▸ Forkless.refl state
  | version reported =>
    simp only [Extension.apply, State.applyEvent, bind_ok_iff, pure_ok_iff] at ran
    obtain ⟨found, -, rfl⟩ := ran
    apply Forkless.modify
    exact fun _ whole => whole
  | hardforkVersionVote version at_ =>
    simp only [Extension.apply, State.applyEvent, bind_ok_iff, pure_ok_iff] at ran
    obtain ⟨found, -, rfl⟩ := ran
    apply Forkless.modify
    intro _ _
    exact Nat.mul_mod_left _ _

theorem missSlot_forkless {block : Block Key} {state next : State Key} {slot : Nat}
    (ran : state.missSlot block slot = .ok next) : Forkless state next := by
  rw [State.missSlot, bind_ok_iff] at ran
  obtain ⟨missed, -, ran⟩ := ran
  split at ran
  · rw [pure_ok_iff] at ran
    exact ran ▸ Forkless.refl state
  · rw [pure_ok_iff] at ran
    subst ran
    apply Forkless.modify
    exact fun _ whole => whole

theorem changes_forkless {changes : List (Change Key)} {state next : State Key}
    (ran : changes.foldlM State.applyChange state = .ok next) : Forkless state next :=
  foldlM_forkless (fun _ _ _ => applyChange_forkless) ran

theorem applyChange_idle {change : Change Key} {state next : State Key}
    (ran : state.applyChange change = .ok next) : Idle state next := applyEvent_idle ran

theorem changes_idle {changes : List (Change Key)} {state next : State Key}
    (ran : changes.foldlM State.applyChange state = .ok next) : Idle state next :=
  foldlM_idle (fun _ _ _ => applyChange_idle) ran

theorem changes_grown {changes : List (Change Key)} {state next : State Key}
    (ran : changes.foldlM State.applyChange state = .ok next) : Grown state next :=
  foldlM_grown (fun _ _ _ ran => applyEvent_grown ran) ran

theorem extension_idle {witness : String} {extension : Extension} {state next : State Key}
    (ran : extension.apply witness state = .ok next) : Idle state next := by
  cases extension with
  | void => exact Except.ok.inj ran ▸ Idle.refl state
  | version reported =>
    rw [Extension.apply] at ran
    exact applyEvent_idle ran
  | hardforkVersionVote version at_ =>
    rw [Extension.apply] at ran
    exact applyEvent_idle ran

theorem extension_grown {witness : String} {extension : Extension} {state next : State Key}
    (ran : extension.apply witness state = .ok next) : Grown state next := by
  cases extension with
  | void => exact Except.ok.inj ran ▸ (Same.refl state).grown
  | version reported =>
    rw [Extension.apply] at ran
    exact applyEvent_grown ran
  | hardforkVersionVote version at_ =>
    rw [Extension.apply] at ran
    exact applyEvent_grown ran

/-!
## The parts of a block
-/

/-- What a block has done when the schedule is about to be updated. -/
structure Prepared (state prepared : State Key) (block : SignedBlock Key) : Prop where
  grown : Grown state prepared
  some : 0 < state.witnesses.length
  forkless : Forkless state prepared
  rostered : Rostered state → Rostered prepared
  head : prepared.headBlockNum = state.headBlockNum + 1
  time : prepared.time = block.timestamp

theorem prepare_prepared {state prepared : State Key} {block : SignedBlock Key}
    (ran : state.prepare block = .ok prepared) : Prepared state prepared block := by
  simp only [State.prepare, bind_ok_iff] at ran
  obtain ⟨_, valid, extended, extensions, _, -, _, -, applied, transactions, headed, global, signed,
    signing, expired⟩ := ran
  have earlyIdle := (foldlM_idle (fun _ _ _ => extension_idle) extensions).trans
    (changes_idle transactions)
  have lateIdle := changes_idle expired
  have grown : Grown state prepared :=
    ((((foldlM_grown (fun _ _ _ => extension_grown) extensions).trans
      (changes_grown transactions)).trans (updateGlobalDynamicData_grown global)).trans
        (updateSigningWitness_grown signing)).trans (changes_grown expired)
  have early := (foldlM_forkless (fun _ _ _ => extension_forkless) extensions).trans
    (changes_forkless transactions)
  have rostered := fun before => updateSigningWitness_rostered (earlyIdle.rostered before) global signing
  have middle : Forkless applied signed ∧ signed.headBlockNum = applied.headBlockNum + 1 ∧
      signed.time = block.timestamp := by
    simp only [State.updateGlobalDynamicData, State.updateSigningWitness, bind_ok_iff,
      pure_ok_iff] at global signing
    obtain ⟨slotted, missed, rfl⟩ := global
    obtain ⟨witness, -, rfl⟩ := signing
    have slots := foldlM_forkless (fun _ _ _ => missSlot_forkless) missed
    have clock : Forkless slotted { slotted with
        headBlockNum := applied.headBlockNum + 1
        time := block.header.timestamp
        currentAslot := applied.currentAslot + (if applied.time = 0 then 0 else
          applied.getSlotAtTime block.header.timestamp - 1) + 1 } :=
      ⟨rfl, ⟨rfl, rfl⟩, rfl, fun whole => whole⟩
    refine ⟨slots.trans (clock.trans ?_), rfl, rfl⟩
    apply Forkless.modify
    exact fun _ whole => whole
  exact {
    grown := grown
    some := validateBlockHeader_some valid
    forkless := (early.trans middle.1).trans (changes_forkless expired)
    rostered := fun before => lateIdle.rostered (rostered before).1
    head := by rw [lateIdle.head, middle.2.1, earlyIdle.head]
    time := by rw [lateIdle.time, middle.2.2] }

theorem Retimed.backers {state next : State Key} (retimed : Retimed state next)
    (test : Witness Key → Bool) (steady : Steady test) : next.backers test = state.backers test := by
  have views := retimed.views (fun witness => (witness.owner, test witness))
    (fun witness mark position last scheduled =>
      Prod.ext rfl (steady witness mark position last scheduled))
  have each (state : State Key) (name : String) : state.witnesses.any (fun witness =>
      witness.owner = name && test witness) =
        (state.witnesses.map (fun witness => (witness.owner, test witness))).any (fun entry =>
          entry.1 = name && entry.2) := by
    rw [List.any_map]
    rfl
  rw [State.backers, State.backers, retimed.same.names]
  apply List.filter_congr
  intro name _
  rw [each, each, views]

theorem updateMedianWitnessProps_forks {state next : State Key}
    (ran : state.updateMedianWitnessProps = .ok next) :
    next.currentHardforkVersion = state.currentHardforkVersion ∧
      next.nextHardfork = state.nextHardfork ∧ next.nextHardforkTime = state.nextHardforkTime ∧
      next.genesisTime = state.genesisTime := by
  simp only [State.updateMedianWitnessProps, bind_ok_iff, pure_ok_iff] at ran
  obtain ⟨_, -, _, -, _, -, rfl⟩ := ran
  exact ⟨rfl, rfl, rfl, rfl⟩

/-- An update of the schedule replaces the pending hardfork by one that enough witnesses of
the outgoing round vote for, or cancels it. -/
theorem reschedule_pending {state next : State Key} (ran : state.reschedule = .ok next) :
    next.currentHardforkVersion = state.currentHardforkVersion ∧
      next.genesisTime = state.genesisTime ∧
      (next.nextHardfork = state.currentHardforkVersion ∨
        hardforkRequiredWitnesses ≤
          (state.votersFor (next.nextHardfork, next.nextHardforkTime)).length) := by
  obtain ⟨result, advanced, timed, reset, -, counted, ran, updated⟩ := reschedule_ok_iff.mp ran
  have retimed := timed_retimed advanced reset
  obtain ⟨current, hardfork, at_, genesis⟩ := updateMedianWitnessProps_forks updated
  obtain ⟨sameCurrent, sameGenesis, pending⟩ := countVersions_pending ran
  have before : timed.currentHardforkVersion = state.currentHardforkVersion ∧
      timed.genesisTime = state.genesisTime := by
    obtain ⟨_, _, rfl⟩ := retimed.rest
    exact ⟨rfl, rfl⟩
  rw [current, genesis, hardfork, at_]
  refine ⟨sameCurrent.trans before.1, sameGenesis.trans before.2, ?_⟩
  have voters := retimed.backers (fun witness =>
    decide ((witness.hardforkVersionVote, witness.hardforkTimeVote) =
      (counted.nextHardfork, counted.nextHardforkTime))) (fun _ _ _ _ _ => rfl)
  rcases pending with cancelled | voted
  · exact Or.inl (cancelled.trans before.1)
  · right
    rw [State.votersFor, voters] at voted
    exact voted

/-- The hardforks up to the last one have been applied in their order, each once. -/
structure Forks (state : ForkState Key) : Prop where
  known : state.lastHardfork ≤ numHardforks
  processed : state.processedHardforks =
    (hardforkTimes state.rounds.genesisTime).take (state.lastHardfork + 1)
  current : state.rounds.currentHardforkVersion = versionOf state.lastHardfork
  operations : state.hardforkOperations = (List.range state.lastHardfork).map (· + 1)

theorem applyHardfork_rounds {hardfork : Nat} {state next : ForkState Key}
    (ran : state.applyHardfork hardfork = .ok next) :
    next.rounds = { state.rounds with currentHardforkVersion := versionOf hardfork } := by
  simp only [ForkState.applyHardfork, bind_ok_iff, pure_ok_iff] at ran
  obtain ⟨_, -, _, -, _, -, _, -, rfl⟩ := ran
  rfl

/-- Of the witnesses' state the loop writes the current version only. -/
theorem applyHardforks_rounds {left : Nat} {state next : ForkState Key}
    (ran : applyHardforks left state = .ok next) :
    ∃ version, next.rounds = { state.rounds with currentHardforkVersion := version } := by
  induction left generalizing state with
  | zero =>
    rw [applyHardforks] at ran
    split at ran
    · cases ran
    · cases ran
      exact ⟨_, rfl⟩
  | succ left hypothesis =>
    rw [applyHardforks] at ran
    split at ran
    · rw [bind_ok_iff] at ran
      obtain ⟨applied, first, rest⟩ := ran
      obtain ⟨version, same⟩ := hypothesis rest
      rw [applyHardfork_rounds first] at same
      exact ⟨version, same⟩
    · cases ran
      exact ⟨_, rfl⟩

theorem applyHardfork_forks {hardfork : Nat} {state next : ForkState Key} (forks : Forks state)
    (ran : state.applyHardfork hardfork = .ok next) :
    Forks next ∧ next.lastHardfork = state.lastHardfork + 1 := by
  simp only [ForkState.applyHardfork, bind_ok_iff, require_ok_iff, expect_ok_iff,
    pure_ok_iff] at ran
  obtain ⟨_, rfl, _, -, time, known, _, -, rfl⟩ := ran
  refine ⟨?_, rfl⟩
  constructor
  · obtain ⟨inside, -⟩ := List.getElem?_eq_some_iff.mp known
    exact Nat.lt_succ_iff.mp inside
  · change state.processedHardforks ++ [time] = _
    rw [forks.processed, List.take_add_one (i := state.lastHardfork + 1), known]
    rfl
  · rfl
  · change state.hardforkOperations ++ _ = _
    rw [forks.operations, List.range_succ, List.map_append]
    rfl

/-- The loop applies the hardforks that are next, as long as the pending one is newer and
its time has come. -/
theorem applyHardforks_forks {left : Nat} {state next : ForkState Key} (forks : Forks state)
    (ran : applyHardforks left state = .ok next) :
    Forks next ∧ state.lastHardfork ≤ next.lastHardfork ∧
      ∀ hardfork, state.lastHardfork < hardfork → hardfork ≤ next.lastHardfork →
        versionOf (hardfork - 1) < state.rounds.nextHardfork ∧
          state.rounds.nextHardforkTime ≤ state.rounds.time := by
  induction left generalizing state with
  | zero =>
    rw [applyHardforks] at ran
    split at ran
    · cases ran
    · cases ran
      refine ⟨forks, Nat.le_refl _, ?_⟩
      intro hardfork newer older
      omega
  | succ left hypothesis =>
    rw [applyHardforks] at ran
    split at ran
    · rename_i due
      rw [bind_ok_iff] at ran
      obtain ⟨applied, first, rest⟩ := ran
      obtain ⟨after, last⟩ := applyHardfork_forks forks first
      obtain ⟨final, further, each⟩ := hypothesis after rest
      rw [applyHardfork_rounds first] at each
      simp only [ForkState.due, Bool.and_eq_true, decide_eq_true_eq] at due
      refine ⟨final, by omega, ?_⟩
      intro hardfork newer older
      by_cases one : hardfork = state.lastHardfork + 1
      · rw [one, Nat.add_sub_cancel]
        exact due
      · exact each hardfork (by omega) older
    · cases ran
      refine ⟨forks, Nat.le_refl _, ?_⟩
      intro hardfork newer older
      omega

/-!
## Runs
-/

/-- What holds after every block. -/
structure Steered (state : ForkState Key) : Prop where
  seated : 0 < state.rounds.witnesses.length → Kept state.rounds ∧ Rostered state.rounds
  forks : Forks state
  whole : state.rounds.WholeVotes
  pendingWhole : state.rounds.nextHardfork % 2 ^ 16 = 0

/-- The state of the witnesses at the last update of the schedule in a run. A round has as
many blocks as there are places in it, so with fewer blocks behind it no other update has
come. -/
def LastUpdate (start : ForkState Key) (blocks : List (SignedBlock Key)) (prepared : State Key) :
    Prop :=
  ∃ earlier update later before, blocks = earlier ++ update :: later ∧
    earlier.foldlM ForkState.applyBlock start = .ok before ∧
    before.rounds.prepare update = .ok prepared ∧
    prepared.headBlockNum % maxWitnesses = 0 ∧ later.length < maxWitnesses

/-- The pending hardfork is not newer than the last one, or it was voted for at the last
update of the schedule. -/
def Pending (start : ForkState Key) (blocks : List (SignedBlock Key)) (last : Nat)
    (rounds : State Key) : Prop :=
  rounds.nextHardfork ≤ versionOf last ∨
    ∃ prepared, LastUpdate start blocks prepared ∧ prepared.scheduledNames.Nodup ∧
      hardforkRequiredWitnesses ≤
        (prepared.votersFor (rounds.nextHardfork, rounds.nextHardforkTime)).length

theorem versionOf_whole (hardfork : Nat) : versionOf hardfork % 2 ^ 16 = 0 := by
  rw [versionOf, hardforkVersions]
  rcases hardfork with _ | _ | more
  · rfl
  · rfl
  · rfl

theorem votersFor_whole {state : State Key} (whole : state.WholeVotes) {hardfork : Nat × Nat}
    (voted : 0 < (state.votersFor hardfork).length) : hardfork.1 % 2 ^ 16 = 0 := by
  obtain ⟨name, member⟩ := List.exists_mem_of_length_pos voted
  rw [State.votersFor, State.backers, List.mem_filter, List.any_eq_true] at member
  obtain ⟨-, witness, registered, voter⟩ := member
  rw [Bool.and_eq_true, decide_eq_true_eq, decide_eq_true_eq] at voter
  rw [← voter.2]
  exact whole witness registered

/-- A block moves the head on by one. -/
theorem applyBlock_head {state next : ForkState Key} {block : SignedBlock Key}
    (ran : state.applyBlock block = .ok next) :
    next.rounds.headBlockNum = state.rounds.headBlockNum + 1 := by
  simp only [ForkState.applyBlock, bind_ok_iff, pure_ok_iff] at ran
  obtain ⟨prepared, ready, scheduled, updated, processed, processes, forked, hardforks, later,
    rest, rfl⟩ := ran
  obtain ⟨version, rounds⟩ := applyHardforks_rounds hardforks
  have idle := changes_idle rest
  rw [rounds] at idle
  rw [← (prepare_prepared ready).head, ← (updateWitnessSchedule_unhurried updated).head,
    ← (changes_idle processes).head]
  exact idle.head

theorem run_head {start state : ForkState Key} {blocks : List (SignedBlock Key)}
    (ran : blocks.foldlM ForkState.applyBlock start = .ok state) :
    state.rounds.headBlockNum = start.rounds.headBlockNum + blocks.length := by
  induction blocks generalizing start with
  | nil =>
    rw [List.foldlM_nil, pure_ok_iff] at ran
    rw [ran, List.length_nil, Nat.add_zero]
  | cons block rest hypothesis =>
    rw [List.foldlM_cons, bind_ok_iff] at ran
    obtain ⟨middle, first, others⟩ := ran
    rw [hypothesis others, applyBlock_head first, List.length_cons]
    omega

/-- An update of the schedule keeps the pending hardfork a hardfork that has been voted for. -/
theorem updateWitnessSchedule_pending {start : ForkState Key} {blocks : List (SignedBlock Key)}
    {block : SignedBlock Key} {state : ForkState Key} {prepared scheduled : State Key}
    (steered : Steered state) (ran : blocks.foldlM ForkState.applyBlock start = .ok state)
    (ready : state.rounds.prepare block = .ok prepared)
    (updated : prepared.updateWitnessSchedule = .ok scheduled)
    (pending : Pending start blocks state.lastHardfork state.rounds) :
    Pending start (blocks ++ [block]) state.lastHardfork scheduled := by
  have facts := prepare_prepared ready
  rw [State.updateWitnessSchedule] at updated
  split at updated
  · rename_i boundary
    obtain ⟨-, -, cancelled | enough⟩ := reschedule_pending updated
    · left
      rw [cancelled, facts.forkless.current, steered.forks.current]
    · right
      exact ⟨prepared, ⟨blocks, block, [], state, rfl, ran, ready, boundary, Nat.succ_pos _⟩,
        (facts.rostered (steered.seated facts.some).2).distinct, enough⟩
  · rename_i inside
    cases updated
    obtain ⟨sameHardfork, sameTime⟩ := facts.forkless.pending
    rcases pending with old | ⟨at_, ⟨earlier, update, later, before, rfl, reached, then_, boundary,
      short⟩, distinct, enough⟩
    · left
      rw [sameHardfork]
      exact old
    · right
      refine ⟨at_, ⟨earlier, update, later ++ [block], before, by simp, reached, then_, boundary,
        ?_⟩, distinct, by rwa [sameHardfork, sameTime]⟩
      -- a full round later the head would be on a boundary again
      have head := facts.head
      have whole := run_head ran
      have part := run_head reached
      have there := (prepare_prepared then_).head
      rw [List.length_append, List.length_cons] at whole
      rw [List.length_append, List.length_singleton]
      rw [maxWitnesses] at *
      omega

/-- An update of the schedule leaves the votes for hardforks, and so the pending hardfork. -/
theorem updateWitnessSchedule_whole {state prepared scheduled : State Key}
    (forkless : Forkless state prepared) (whole : state.WholeVotes)
    (pendingWhole : state.nextHardfork % 2 ^ 16 = 0)
    (currentWhole : state.currentHardforkVersion % 2 ^ 16 = 0)
    (updated : prepared.updateWitnessSchedule = .ok scheduled) :
    scheduled.currentHardforkVersion = state.currentHardforkVersion ∧
      scheduled.genesisTime = state.genesisTime ∧ scheduled.WholeVotes ∧
      scheduled.nextHardfork % 2 ^ 16 = 0 := by
  have before := forkless.whole whole
  have unhurried := updateWitnessSchedule_unhurried updated
  have after : scheduled.WholeVotes := by
    intro witness member
    obtain ⟨other, registered, same⟩ :=
      exists_of_map (unhurried.views Witness.hardforkVersionVote (fun _ _ _ _ _ => rfl)) member
    exact same ▸ before other registered
  rw [State.updateWitnessSchedule] at updated
  split at updated
  · obtain ⟨current, genesis, voted⟩ := reschedule_pending updated
    refine ⟨current.trans forkless.current, genesis.trans forkless.genesis, after, ?_⟩
    rcases voted with cancelled | enough
    · rw [cancelled, forkless.current]
      exact currentWhole
    · exact votersFor_whole before (lt_of_lt_of_le (by decide) enough)
  · cases updated
    refine ⟨forkless.current, forkless.genesis, after, ?_⟩
    rw [forkless.pending.1]
    exact pendingWhole

theorem versionOf_mono {hardfork later : Nat} (order : hardfork ≤ later)
    (known : later ≤ numHardforks) : versionOf hardfork ≤ versionOf later := by
  rw [numHardforks] at known
  have ends : hardfork = 0 ∨ hardfork = later := by omega
  rcases ends with rfl | rfl
  · exact Nat.zero_le _
  · exact Nat.le_refl _

/-- No version lies between a hardfork and the one before it. -/
theorem versionOf_le {hardfork version : Nat} (positive : 0 < hardfork)
    (known : hardfork ≤ numHardforks) (newer : versionOf (hardfork - 1) < version)
    (whole : version % 2 ^ 16 = 0) : versionOf hardfork ≤ version := by
  rw [numHardforks] at known
  have one : hardfork = 1 := by omega
  subst one
  change 0 < version at newer
  change 2 ^ 16 ≤ version
  omega

/-- The hardfork has been voted for at the last update of the schedule, by enough of the
witnesses that were scheduled then, for a version not older and a time not later. -/
def VotedFor (start : ForkState Key) (blocks : List (SignedBlock Key)) (hardfork time : Nat) :
    Prop :=
  ∃ prepared version at_, LastUpdate start blocks prepared ∧ prepared.scheduledNames.Nodup ∧
    hardforkRequiredWitnesses ≤ (prepared.votersFor (version, at_)).length ∧
    versionOf hardfork ≤ version ∧ at_ ≤ time

theorem applyBlock_steered {start state next : ForkState Key} {blocks : List (SignedBlock Key)}
    {block : SignedBlock Key} (steered : Steered state)
    (ran : blocks.foldlM ForkState.applyBlock start = .ok state)
    (pending : Pending start blocks state.lastHardfork state.rounds)
    (applied : state.applyBlock block = .ok next) :
    Steered next ∧ Pending start (blocks ++ [block]) next.lastHardfork next.rounds ∧
      next.rounds.genesisTime = state.rounds.genesisTime ∧
      state.lastHardfork ≤ next.lastHardfork ∧
      ∀ hardfork, state.lastHardfork < hardfork → hardfork ≤ next.lastHardfork →
        VotedFor start (blocks ++ [block]) hardfork block.timestamp := by
  simp only [ForkState.applyBlock, bind_ok_iff, pure_ok_iff] at applied
  obtain ⟨prepared, ready, scheduled, updated, processed, processes, forked, hardforks, later,
    rest, rfl⟩ := applied
  have facts := prepare_prepared ready
  obtain ⟨kept, rostered⟩ := steered.seated facts.some
  have currentWhole : state.rounds.currentHardforkVersion % 2 ^ 16 = 0 :=
    steered.forks.current ▸ versionOf_whole _
  obtain ⟨current, genesis, whole, pendingWhole⟩ := updateWitnessSchedule_whole facts.forkless
    steered.whole steered.pendingWhole currentWhole updated
  have voted := updateWitnessSchedule_pending steered ran ready updated pending
  have early := changes_forkless processes
  have late := changes_forkless rest
  have forks : Forks { state with rounds := processed } :=
    { known := steered.forks.known
      processed := by rw [early.genesis, genesis]; exact steered.forks.processed
      current := by rw [early.current, current]; exact steered.forks.current
      operations := steered.forks.operations }
  obtain ⟨after, further, each⟩ := applyHardforks_forks forks hardforks
  obtain ⟨version, rounds⟩ := applyHardforks_rounds hardforks
  have hardfork : later.nextHardfork = scheduled.nextHardfork := by
    rw [late.pending.1, rounds]
    exact early.pending.1
  have at_ : later.nextHardforkTime = scheduled.nextHardforkTime := by
    rw [late.pending.2, rounds]
    exact early.pending.2
  have sameGenesis : later.genesisTime = state.rounds.genesisTime := by
    rw [late.genesis, rounds]
    exact early.genesis.trans genesis
  refine ⟨⟨fun _ => ?_, ?_, ?_, ?_⟩, ?_, sameGenesis, further, ?_⟩
  · have seated : Kept processed ∧ Rostered processed :=
      ⟨(changes_grown processes).keeps
          (updateWitnessSchedule_kept (facts.grown.keeps kept) updated),
        (changes_idle processes).rostered (updateWitnessSchedule_rostered
          (facts.grown.keeps kept) (facts.some.trans_le facts.grown.longer)
          (facts.rostered rostered) updated)⟩
    have same : Same processed forked.rounds ∧ Idle processed forked.rounds := by
      rw [rounds]
      exact ⟨⟨rfl, rfl⟩, ⟨⟨rfl, rfl⟩, rfl, rfl, fun _ within => within⟩⟩
    exact ⟨(changes_grown rest).keeps (same.1.kept seated.1),
      (changes_idle rest).rostered (same.2.rostered seated.2)⟩
  · exact {
      known := after.known
      processed := by rw [late.genesis]; exact after.processed
      current := late.current.trans after.current
      operations := after.operations }
  · apply late.whole
    rw [rounds]
    exact early.whole whole
  · rw [hardfork]
    exact pendingWhole
  · rw [Pending, hardfork, at_]
    rcases voted with old | enough
    · exact Or.inl (old.trans (versionOf_mono further after.known))
    · exact Or.inr enough
  · intro number newer older
    obtain ⟨version_lt, time_le⟩ := each number newer older
    have first := (each (state.lastHardfork + 1) (Nat.lt_succ_self _) (newer.trans_le older)).1
    rw [Nat.add_sub_cancel] at first
    dsimp only at version_lt time_le first
    rw [early.pending.1] at version_lt first
    rw [early.pending.2, (changes_idle processes).time,
      (updateWitnessSchedule_unhurried updated).time, facts.time] at time_le
    rcases voted with old | ⟨update, last, distinct, enough⟩
    · exact absurd first (Nat.not_lt.mpr old)
    · exact ⟨update, _, _, last, distinct, enough, versionOf_le (by omega)
        (older.trans after.known) version_lt pendingWhole, time_le⟩

theorem start_steered {genesisTime : Nat} {props : ChainProperties}
    {candidates : List (String × Option Key)} {start : State Key}
    (founded : genesis genesisTime props candidates = .ok start) :
    Steered (.start start) ∧ Pending (.start start) [] 0 start ∧
      start.genesisTime = genesisTime := by
  have seated := genesis_seated founded
  have fresh := genesis_new founded
  simp only [genesis, bind_ok_iff, pure_ok_iff] at founded
  obtain ⟨witnesses, added, rfl⟩ := founded
  refine ⟨⟨seated, ⟨Nat.zero_le _, rfl, rfl, rfl⟩, ?_, rfl⟩, Or.inl (Nat.le_refl _), rfl⟩
  intro witness member
  obtain ⟨_, _, _, rfl⟩ := fresh witness member
  rfl

theorem run_steered {genesisTime : Nat} {props : ChainProperties}
    {candidates : List (String × Option Key)} {start : State Key} {state : ForkState Key}
    {blocks : List (SignedBlock Key)}
    (founded : genesis genesisTime props candidates = .ok start)
    (ran : blocks.foldlM ForkState.applyBlock (.start start) = .ok state) :
    Steered state ∧ Pending (.start start) blocks state.lastHardfork state.rounds ∧
      state.rounds.genesisTime = genesisTime := by
  induction blocks using List.reverseRecOn generalizing state with
  | nil =>
    rw [List.foldlM_nil, pure_ok_iff] at ran
    subst ran
    exact start_steered founded
  | append_singleton blocks block hypothesis =>
    rw [List.foldlM_append, bind_ok_iff] at ran
    obtain ⟨middle, before, last⟩ := ran
    rw [List.foldlM_cons, bind_ok_iff] at last
    obtain ⟨next, applied, last⟩ := last
    rw [List.foldlM_nil, pure_ok_iff] at last
    subst last
    obtain ⟨steered, pending, genesis⟩ := hypothesis before
    obtain ⟨after, voted, same, -⟩ := applyBlock_steered steered before pending applied
    exact ⟨after, voted, same.trans genesis⟩

/-- In every run from a genesis the hardforks have been applied in increasing order, each
once, their times are recorded and the current version is that of the last one. A hardfork
that a further block applies has been voted for at the last update of the schedule. -/
theorem run_hardforks {genesisTime : Nat} {props : ChainProperties}
    {candidates : List (String × Option Key)} {start : State Key} {state : ForkState Key}
    {blocks : List (SignedBlock Key)}
    (founded : genesis genesisTime props candidates = .ok start)
    (ran : blocks.foldlM ForkState.applyBlock (.start start) = .ok state) :
    state.hardforkOperations = (List.range state.lastHardfork).map (· + 1) ∧
      (∀ hardfork ≤ state.lastHardfork, ∃ time,
        (hardforkTimes genesisTime)[hardfork]? = some time ∧
          state.processedHardforks[hardfork]? = some time) ∧
      hardforkVersions[state.lastHardfork]? = some state.rounds.currentHardforkVersion ∧
      ∀ block next, state.applyBlock block = .ok next →
        state.lastHardfork ≤ next.lastHardfork ∧
        ∀ hardfork, state.lastHardfork < hardfork → hardfork ≤ next.lastHardfork →
          VotedFor (.start start) (blocks ++ [block]) hardfork block.timestamp := by
  obtain ⟨steered, pending, genesis⟩ := run_steered founded ran
  have known := steered.forks.known
  refine ⟨steered.forks.operations, ?_, ?_, ?_⟩
  · intro hardfork applied
    have inside : hardfork < (hardforkTimes genesisTime).length :=
      Nat.lt_succ_iff.mpr (applied.trans known)
    refine ⟨_, List.getElem?_eq_getElem inside, ?_⟩
    rw [steered.forks.processed, genesis, List.getElem?_take_of_lt (Nat.lt_succ_iff.mpr applied)]
    exact List.getElem?_eq_getElem inside
  · have inside : state.lastHardfork < hardforkVersions.length := Nat.lt_succ_iff.mpr known
    rw [steered.forks.current, versionOf, List.getElem?_eq_getElem inside]
    rfl
  · intro block next applied
    obtain ⟨-, -, -, further, each⟩ := applyBlock_steered steered ran pending applied
    exact ⟨further, each⟩

/-!
## A chain with seventeen witnesses
-/
namespace SeventeenWitnesses

/-- The witnesses, named by letters. -/
def candidates : List (String × Option Nat) :=
  (List.range 17).map (fun place => (String.singleton (Char.ofNat (97 + place)), some place))

/-- The next block, by the witness whose turn it is, with a vote for the first hardfork. -/
def vote (state : State Nat) : SignedBlock Nat :=
  { witness := state.getScheduledWitness 1
    timestamp := state.getSlotTime 1
    extensions := [.hardforkVersionVote (hardforkVersion 0 1) 0]
    transactions := []
    expired := []
    processes := []
    later := [] }

/-- A number of such blocks. -/
def produce : Nat → ForkState Nat → List (SignedBlock Nat)
  | 0, _ => []
  | count + 1, state =>
    vote state.rounds :: match state.applyBlock (vote state.rounds) with
      | .ok next => produce count next
      | .error _ => []

/-- At the end of the second round all witnesses have voted, and the hardfork is applied. -/
theorem second_round_hardfork :
    ∃ start state next, genesis 300 TwoWitnesses.props candidates = .ok start ∧
      (produce 41 (.start start)).foldlM ForkState.applyBlock (.start start) = .ok state ∧
      state.applyBlock (vote state.rounds) = .ok next ∧ state.lastHardfork = 0 ∧
      next.lastHardfork = 1 ∧
      VotedFor (.start start) (produce 41 (.start start) ++ [vote state.rounds]) 1
        (vote state.rounds).timestamp := by
  obtain ⟨start, founded, tested⟩ := exists_ok_of_any
    (genesis 300 TwoWitnesses.props candidates)
    (fun start => ((produce 41 (.start start)).foldlM ForkState.applyBlock
      (.start start)).toOption.any (fun state : ForkState Nat => state.lastHardfork = 0 &&
        (state.applyBlock (vote state.rounds)).toOption.any (fun next => next.lastHardfork = 1)))
    (by decide +kernel)
  obtain ⟨state, ran, tested⟩ := exists_ok_of_any _ _ tested
  rw [Bool.and_eq_true, decide_eq_true_eq] at tested
  obtain ⟨next, applied, last⟩ := exists_ok_of_any _ _ tested.2
  rw [decide_eq_true_eq] at last
  obtain ⟨-, -, -, further⟩ := run_hardforks founded ran
  exact ⟨start, state, next, founded, ran, applied, tested.1, last,
    (further _ _ applied).2 1 (by omega) (by omega)⟩

end SeventeenWitnesses

end DeipChain.WitnessSchedule
