import DeipChain.Chain.ScheduleRounds

/-!
# The last irreversible block

When a block has been credited to the witness that signed it,
`update_last_irreversible_block` moves on the height below which nothing is undone. During
the first month the height follows the head at the distance of one round. After that it is
the height that three quarters of the scheduled witnesses have confirmed, and it is never
moved back.

The selected place counts the witnesses from the one that lags furthest behind, so all
witnesses from that place on have confirmed the selected height.
-/
namespace DeipChain.WitnessSchedule

open Result Selection Chain

variable {Key : Type}

/-- `DEIP_START_MINER_VOTING_BLOCK` -/
def startMinerVotingBlock : Nat := 24 * 60 * 60 / blockInterval * 30

/-- `DEIP_100_PERCENT` -/
def hundredPercent : Nat := 10000

/-- `DEIP_IRREVERSIBLE_THRESHOLD` -/
def irreversibleThreshold : Nat := 75 * (hundredPercent / 100)

/-- `DEIP_MAX_UNDO_HISTORY` -/
def maxUndoHistory : Nat := 10000

/-- The witnesses with `last_irreversible_block_num`. -/
structure FinalState (Key : Type) where
  rounds : State Key
  lastIrreversibleBlockNum : Nat

/-- A block as it is pushed, with one of the node's flags. -/
structure Push (Key : Type) where
  block : Block Key
  skipUndoHistoryCheck : Bool

/-- `update_last_irreversible_block`, up to the commit of the height. -/
def FinalState.updateLastIrreversibleBlock (chain : FinalState Key) : Except ScheduleError (FinalState Key) :=
  let head := chain.rounds.headBlockNum
  if head < startMinerVotingBlock then
    pure (if maxWitnesses < head then
      { chain with lastIrreversibleBlockNum := head - maxWitnesses } else chain)
  else do
    let scheduled ← (chain.rounds.schedule.currentShuffledWitnesses.take
      chain.rounds.schedule.numScheduledWitnesses).mapM (fun name => chain.rounds.getWitness name)
    let offset := (hundredPercent - irreversibleThreshold) * scheduled.length / hundredPercent
    -- `nth_element` puts the witness in place that a full sort would
    let confirmed ← expect (((scheduled.map Witness.lastConfirmedBlockNum).insertionSort
      (· ≤ ·))[offset]?) (.unknownWitness "")
    pure (if chain.lastIrreversibleBlockNum < confirmed then
      { chain with lastIrreversibleBlockNum := confirmed } else chain)

/-- `_apply_block` up to the new head, with the check on the undo history. -/
def FinalState.signBlock (chain : FinalState Key) (push : Push Key) : Except ScheduleError (FinalState Key) := do
  chain.rounds.validateBlockHeader push.block
  let applied ← push.block.transactions.foldlM State.applyEvent chain.rounds
  let headed ← applied.updateGlobalDynamicData push.block
  require (push.skipUndoHistoryCheck = true ∨
      headed.headBlockNum - chain.lastIrreversibleBlockNum < maxUndoHistory)
    (.undoHistory chain.lastIrreversibleBlockNum headed.headBlockNum)
  let signed ← headed.updateSigningWitness push.block
  pure { chain with rounds := signed }

/-- `_apply_block` -/
def FinalState.applyBlock (chain : FinalState Key) (push : Push Key) : Except ScheduleError (FinalState Key) := do
  let signed ← chain.signBlock push
  let final ← signed.updateLastIrreversibleBlock
  let expired ← push.block.expired.foldlM State.applyEvent final.rounds
  let scheduled ← expired.updateWitnessSchedule
  let processed ← push.block.processes.foldlM State.applyEvent scheduled
  pure { final with rounds := processed }

theorem updateLastIrreversibleBlock_rounds {chain next : FinalState Key}
    (ran : chain.updateLastIrreversibleBlock = .ok next) : next.rounds = chain.rounds := by
  rw [FinalState.updateLastIrreversibleBlock] at ran
  split at ran
  · rw [pure_ok_iff] at ran
    subst ran
    split
    · rfl
    · rfl
  · simp only [bind_ok_iff, pure_ok_iff] at ran
    obtain ⟨_, -, _, -, rfl⟩ := ran
    split
    · rfl
    · rfl

/-- The irreversible block has no part in what happens to the witnesses. -/
theorem signBlock_beforeSchedule {chain signed : FinalState Key} {push : Push Key} {expired : State Key}
    (signing : chain.signBlock push = .ok signed)
    (proposals : push.block.expired.foldlM State.applyEvent signed.rounds = .ok expired) :
    chain.rounds.beforeSchedule push.block = .ok expired := by
  simp only [FinalState.signBlock, bind_ok_iff, pure_ok_iff] at signing
  obtain ⟨_, valid, applied, transactions, headed, global, _, -, signed, signing, rfl⟩ := signing
  simp only [State.beforeSchedule, bind_ok_iff]
  exact ⟨_, valid, applied, transactions, headed, global, signed, signing, proposals⟩

theorem applyBlock_rounds {chain next : FinalState Key} {push : Push Key}
    (ran : chain.applyBlock push = .ok next) :
    chain.rounds.applyBlock push.block = .ok next.rounds := by
  simp only [FinalState.applyBlock, bind_ok_iff, pure_ok_iff] at ran
  obtain ⟨signed, signing, final, moved, expired, proposals, scheduled, updated, processed,
    processes, rfl⟩ := ran
  rw [updateLastIrreversibleBlock_rounds moved] at proposals
  rw [State.applyBlock, bind_ok_iff]
  refine ⟨expired, signBlock_beforeSchedule signing proposals, ?_⟩
  rw [bind_ok_iff]
  exact ⟨scheduled, updated, processes⟩

/-!
## What the witnesses have confirmed
-/

/-- No witness has confirmed a block beyond a height. -/
def State.Within (height : Nat) (state : State Key) : Prop :=
  ∀ witness ∈ state.witnesses, witness.lastConfirmedBlockNum ≤ height

theorem State.Within.modify {height : Nat} {state : State Key} (within : state.Within height)
    {change : Witness Key → Witness Key}
    (keeps : ∀ witness, witness.lastConfirmedBlockNum ≤ height →
      (change witness).lastConfirmedBlockNum ≤ height) (id : Nat) :
    (state.modifyWitness id change).Within height := by
  intro witness member
  simp only [State.modifyWitness, List.mem_map] at member
  obtain ⟨before, registered, rfl⟩ := member
  split
  · exact keeps before (within before registered)
  · exact within before registered

/-- A step that changes neither the round nor the clock, and confirms nothing. -/
structure Idle (state next : State Key) : Prop where
  schedule : next.scheduledNames = state.scheduledNames ∧
    next.schedule.numScheduledWitnesses = state.schedule.numScheduledWitnesses
  head : next.headBlockNum = state.headBlockNum
  time : next.time = state.time
  within : ∀ height, state.Within height → next.Within height

theorem Idle.refl (state : State Key) : Idle state state :=
  ⟨⟨rfl, rfl⟩, rfl, rfl, fun _ within => within⟩

theorem Idle.trans {state middle next : State Key} (first : Idle state middle)
    (second : Idle middle next) : Idle state next where
  schedule := ⟨second.schedule.1.trans first.schedule.1, second.schedule.2.trans first.schedule.2⟩
  head := second.head.trans first.head
  time := second.time.trans first.time
  within height behind := second.within height (first.within height behind)

theorem Idle.modify {change : Witness Key → Witness Key}
    (keeps : ∀ witness, (change witness).lastConfirmedBlockNum = witness.lastConfirmedBlockNum)
    (id : Nat) (state : State Key) : Idle state (state.modifyWitness id change) where
  schedule := ⟨rfl, rfl⟩
  head := rfl
  time := rfl
  within _ behind := behind.modify (fun witness bound => (keeps witness).trans_le bound) id

theorem foldlM_idle {A : Type} {step : State Key → A → Except ScheduleError (State Key)}
    (round : ∀ element state next, step state element = .ok next → Idle state next)
    {elements : List A} {state next : State Key} (ran : elements.foldlM step state = .ok next) :
    Idle state next :=
  foldlM_invariant (fun _ reached => Idle state reached)
    (fun element _ _ _ before stepped => before.trans (round element _ _ stepped))
    (Idle.refl state) ran

theorem applyEvent_idle {event : Event Key} {state next : State Key}
    (ran : state.applyEvent event = .ok next) : Idle state next := by
  cases event with
  | witnessUpdate owner signingKey props =>
    rw [State.applyEvent, pure_ok_iff] at ran
    subst ran
    rw [State.witnessUpdate]
    split
    · apply Idle.modify
      exact fun _ => rfl
    · constructor
      · exact ⟨rfl, rfl⟩
      · rfl
      · rfl
      · intro height within witness member
        rcases List.mem_append.mp member with old | new
        · exact within witness old
        · rw [List.mem_singleton.mp new]
          exact Nat.zero_le height
  | adjustWitnessVote owner delta total =>
    simp only [State.applyEvent, State.adjustWitnessVote, bind_ok_iff, pure_ok_iff] at ran
    obtain ⟨witness, -, _, -, _, -, rfl⟩ := ran
    apply Idle.modify
    exact fun _ => rfl
  | reportVersion owner version =>
    simp only [State.applyEvent, bind_ok_iff, pure_ok_iff] at ran
    obtain ⟨witness, -, rfl⟩ := ran
    apply Idle.modify
    exact fun _ => rfl
  | voteHardfork owner version at_ =>
    simp only [State.applyEvent, bind_ok_iff, pure_ok_iff] at ran
    obtain ⟨witness, -, rfl⟩ := ran
    apply Idle.modify
    exact fun _ => rfl

theorem applyEvents_idle {events : List (Event Key)} {state next : State Key}
    (ran : events.foldlM State.applyEvent state = .ok next) : Idle state next :=
  foldlM_idle (fun _ _ _ => applyEvent_idle) ran

theorem missSlot_idle {block : Block Key} {state next : State Key} {slot : Nat}
    (ran : state.missSlot block slot = .ok next) : Idle state next := by
  rw [State.missSlot, bind_ok_iff] at ran
  obtain ⟨missed, -, ran⟩ := ran
  split at ran
  · rw [pure_ok_iff] at ran
    exact ran ▸ Idle.refl state
  · rw [pure_ok_iff] at ran
    subst ran
    apply Idle.modify
    exact fun _ => rfl

/-- The schedule names as many witnesses as it counts, no witness twice, and no witness has
confirmed a block that is not there. -/
structure Rostered (state : State Key) : Prop where
  distinct : state.scheduledNames.Nodup
  full : state.scheduledNames.length = state.schedule.numScheduledWitnesses
  within : state.Within state.headBlockNum

theorem Idle.rostered {state next : State Key} (idle : Idle state next)
    (rostered : Rostered state) : Rostered next where
  distinct := idle.schedule.1 ▸ rostered.distinct
  full := by rw [idle.schedule.1, idle.schedule.2, rostered.full]
  within := idle.head ▸ idle.within _ rostered.within

/-- With its signature a block moves the head on by one. -/
theorem updateSigningWitness_rostered {state headed signed : State Key} {block : Block Key}
    (rostered : Rostered state) (global : state.updateGlobalDynamicData block = .ok headed)
    (signing : headed.updateSigningWitness block = .ok signed) :
    Rostered signed ∧ signed.headBlockNum = state.headBlockNum + 1 := by
  simp only [State.updateGlobalDynamicData, State.updateSigningWitness, bind_ok_iff,
    pure_ok_iff] at global signing
  obtain ⟨slotted, missed, rfl⟩ := global
  obtain ⟨witness, -, rfl⟩ := signing
  have idle := foldlM_idle (fun _ _ _ => missSlot_idle) missed
  have before := idle.rostered rostered
  constructor
  · constructor
    · exact before.distinct
    · exact before.full
    · have within : State.Within (state.headBlockNum + 1) slotted := by
        intro other member
        have bound := before.within other member
        rw [idle.head] at bound
        omega
      exact within.modify (fun _ _ => Nat.le_refl _) witness.id
  · rfl

theorem signBlock_rostered {chain signed : FinalState Key} {push : Push Key}
    (rostered : Rostered chain.rounds) (ran : chain.signBlock push = .ok signed) :
    Rostered signed.rounds ∧ signed.rounds.headBlockNum = chain.rounds.headBlockNum + 1 ∧
      signed.lastIrreversibleBlockNum = chain.lastIrreversibleBlockNum := by
  simp only [FinalState.signBlock, bind_ok_iff, pure_ok_iff] at ran
  obtain ⟨_, -, applied, transactions, headed, global, _, -, signed, signing, rfl⟩ := ran
  have idle := applyEvents_idle transactions
  obtain ⟨after, head⟩ := updateSigningWitness_rostered (idle.rostered rostered) global signing
  rw [idle.head] at head
  exact ⟨after, head, rfl⟩

theorem updateWitnessSchedule_rostered {state next : State Key} (kept : Kept state)
    (some : 0 < state.witnesses.length) (rostered : Rostered state)
    (ran : state.updateWitnessSchedule = .ok next) : Rostered next := by
  have unhurried := updateWitnessSchedule_unhurried ran
  rw [State.updateWitnessSchedule] at ran
  split at ran
  · have scheduled := reschedule_scheduled kept some ran
    constructor
    · exact scheduled.distinct
    · have count := reschedule_count ran
      rw [State.scheduledNames, List.length_take, scheduled.places]
      omega
    · intro witness member
      have confirmed : witness.lastConfirmedBlockNum ∈
          next.witnesses.map Witness.lastConfirmedBlockNum := List.mem_map_of_mem member
      rw [unhurried.views _ (fun _ _ _ _ _ => rfl)] at confirmed
      obtain ⟨before, registered, same⟩ := List.mem_map.mp confirmed
      rw [← same, unhurried.head]
      exact rostered.within before registered
  · exact Except.ok.inj ran ▸ rostered

/-!
## The height that is selected
-/

/-- The scheduled witnesses that have confirmed a height. -/
def State.confirmations (height : Nat) (state : State Key) : List String :=
  state.backers (fun witness => decide (height ≤ witness.lastConfirmedBlockNum))

/-- In the voting phase the height stays, or it moves up to one that a witness has confirmed
and of the scheduled witnesses all but a quarter. -/
theorem updateLastIrreversibleBlock_voted {chain next : FinalState Key}
    (voting : startMinerVotingBlock ≤ chain.rounds.headBlockNum)
    (ran : chain.updateLastIrreversibleBlock = .ok next) :
    next = chain ∨ chain.lastIrreversibleBlockNum < next.lastIrreversibleBlockNum ∧
      (∃ witness ∈ chain.rounds.witnesses,
        witness.lastConfirmedBlockNum = next.lastIrreversibleBlockNum) ∧
      chain.rounds.scheduledNames.length - chain.rounds.scheduledNames.length / 4 ≤
        (chain.rounds.confirmations next.lastIrreversibleBlockNum).length := by
  rw [FinalState.updateLastIrreversibleBlock, if_neg (Nat.not_lt.mpr voting)] at ran
  simp only [bind_ok_iff, pure_ok_iff, expect_ok_iff] at ran
  obtain ⟨scheduled, found, confirmed, selected, rfl⟩ := ran
  by_cases higher : chain.lastIrreversibleBlockNum < confirmed
  · right
    rw [if_pos higher]
    constructor
    · exact higher
    constructor
    · have listed := List.mem_of_getElem? selected
      rw [List.mem_insertionSort] at listed
      obtain ⟨witness, member, same⟩ := List.mem_map.mp listed
      obtain ⟨name, -, lookup⟩ := exists_of_mem_mapM found member
      exact ⟨witness, List.mem_of_find?_eq_some (getWitness_ok_iff.mp lookup), same⟩
    · have size : scheduled.length = chain.rounds.scheduledNames.length :=
        (forall₂_of_mapM_ok found).length_eq.symm
      have above := countP_of_sorted (List.perm_insertionSort (· ≤ ·) _)
        (List.pairwise_insertionSort (· ≤ ·) _) (Nat.le_refl confirmed) selected
      have counted := countP_le_backers
        (fun witness => decide (confirmed ≤ witness.lastConfirmedBlockNum)) found
      rw [List.length_map, List.countP_map, size] at above
      simp only [hundredPercent, irreversibleThreshold] at above
      rw [State.confirmations]
      refine Nat.le_trans ?_ (above.trans counted)
      omega
  · left
    rw [if_neg higher]

-- One of two scheduled witnesses is no quarter, so the one that lags behind decides.
example : (do
    let start ← genesis 300 TwoWitnesses.props [("alice", some 1), ("bob", some 2)]
    let late := { start with
      headBlockNum := startMinerVotingBlock
      schedule := { start.schedule with numScheduledWitnesses := 2 }
      witnesses := start.witnesses.map (fun witness =>
        { witness with lastConfirmedBlockNum := 863990 + witness.id }) }
    let next ← FinalState.updateLastIrreversibleBlock ⟨late, 863979⟩
    pure next.lastIrreversibleBlockNum) = (.ok 863990 : Except ScheduleError Nat) := by
  decide +kernel

/-- Before the voting phase the height follows the head. -/
theorem updateLastIrreversibleBlock_early {chain next : FinalState Key}
    (early : chain.rounds.headBlockNum < startMinerVotingBlock)
    (ran : chain.updateLastIrreversibleBlock = .ok next) :
    next.lastIrreversibleBlockNum =
      if maxWitnesses < chain.rounds.headBlockNum then chain.rounds.headBlockNum - maxWitnesses
      else chain.lastIrreversibleBlockNum := by
  rw [FinalState.updateLastIrreversibleBlock, if_pos early, pure_ok_iff] at ran
  subst ran
  split
  · rfl
  · rfl

/-!
## Runs
-/

/-- What holds of the irreversible height after every block. -/
structure Anchored (chain : FinalState Key) : Prop where
  kept : Kept chain.rounds
  rostered : Rostered chain.rounds
  reached : chain.lastIrreversibleBlockNum ≤ chain.rounds.headBlockNum
  early : chain.rounds.headBlockNum < startMinerVotingBlock →
    chain.lastIrreversibleBlockNum = chain.rounds.headBlockNum - maxWitnesses

/-- After the signature the height is moved, and nothing else of the block moves it. -/
theorem applyBlock_final {chain next : FinalState Key} {push : Push Key} (anchored : Anchored chain)
    (ran : chain.applyBlock push = .ok next) :
    ∃ signed final, chain.signBlock push = .ok signed ∧
      signed.updateLastIrreversibleBlock = .ok final ∧
      next.lastIrreversibleBlockNum = final.lastIrreversibleBlockNum ∧
      next.rounds.headBlockNum = signed.rounds.headBlockNum ∧ Rostered next.rounds := by
  simp only [FinalState.applyBlock, bind_ok_iff, pure_ok_iff] at ran
  obtain ⟨signed, signing, final, moved, expired, proposals, scheduled, updated, processed,
    processes, rfl⟩ := ran
  rw [updateLastIrreversibleBlock_rounds moved] at proposals
  have idle := applyEvents_idle proposals
  have later := applyEvents_idle processes
  have grown := beforeSchedule_grown (signBlock_beforeSchedule signing proposals)
  have before := idle.rostered (signBlock_rostered anchored.rostered signing).1
  have rostered := updateWitnessSchedule_rostered (grown.1.keeps anchored.kept) grown.2 before updated
  exact ⟨signed, final, signing, moved, rfl,
    (later.head.trans (updateWitnessSchedule_unhurried updated).head).trans idle.head,
    later.rostered rostered⟩

/-- The height moves on with a block, never back and never beyond the head. -/
theorem applyBlock_anchored {chain next : FinalState Key} {push : Push Key} (anchored : Anchored chain)
    (ran : chain.applyBlock push = .ok next) :
    Anchored next ∧ chain.lastIrreversibleBlockNum ≤ next.lastIrreversibleBlockNum := by
  obtain ⟨signed, final, signing, moved, height, head, rostered⟩ := applyBlock_final anchored ran
  have kept := applyBlock_kept anchored.kept (applyBlock_rounds ran)
  obtain ⟨within, grown, before⟩ := signBlock_rostered anchored.rostered signing
  have reached := anchored.reached
  by_cases voting : startMinerVotingBlock ≤ signed.rounds.headBlockNum
  · rcases updateLastIrreversibleBlock_voted voting moved with rfl | ⟨higher, confirmed, -⟩
    · refine ⟨⟨kept, rostered, ?_, ?_⟩, ?_⟩ <;> omega
    · obtain ⟨witness, member, same⟩ := confirmed
      have bound := within.within witness member
      refine ⟨⟨kept, rostered, ?_, ?_⟩, ?_⟩ <;> omega
  · have early := anchored.early (by omega)
    have moved := updateLastIrreversibleBlock_early (Nat.not_le.mp voting) moved
    split at moved
    · refine ⟨⟨kept, rostered, ?_, ?_⟩, ?_⟩ <;> omega
    · refine ⟨⟨kept, rostered, ?_, ?_⟩, ?_⟩ <;> omega

/-- A genesis with witnesses has a first round. -/
theorem genesis_seated {genesisTime : Nat} {props : ChainProperties}
    {candidates : List (String × Option Key)} {start : State Key}
    (founded : genesis genesisTime props candidates = .ok start)
    (some : 0 < start.witnesses.length) : Kept start ∧ Rostered start := by
  have kept := genesis_kept founded some
  have fresh := genesis_new founded
  simp only [genesis, bind_ok_iff, pure_ok_iff] at founded
  obtain ⟨witnesses, added, rfl⟩ := founded
  have single (names : List String) :
      ((names ++ List.replicate (maxWitnesses - names.length) "").take 1).length = 1 := by
    rw [List.length_take, List.length_append, List.length_replicate, maxWitnesses]
    omega
  refine ⟨kept, ?_, single _, ?_⟩
  · obtain ⟨name, only⟩ :=
      List.length_eq_one_iff.mp (single ((candidates.map Prod.fst).take maxWitnesses))
    rw [State.scheduledNames, only]
    exact List.nodup_singleton name
  · intro witness member
    obtain ⟨_, _, _, rfl⟩ := fresh witness member
    exact Nat.le_refl 0

/-- A genesis on which a block can be applied. -/
theorem genesis_anchored {genesisTime : Nat} {props : ChainProperties}
    {candidates : List (String × Option Key)} {start : State Key} {next : FinalState Key}
    {push : Push Key} (founded : genesis genesisTime props candidates = .ok start)
    (ran : FinalState.applyBlock ⟨start, 0⟩ push = .ok next) : Anchored ⟨start, 0⟩ := by
  have some : 0 < start.witnesses.length := by
    simp only [FinalState.applyBlock, FinalState.signBlock, bind_ok_iff] at ran
    obtain ⟨_, ⟨_, valid, -⟩, -⟩ := ran
    exact validateBlockHeader_some valid
  obtain ⟨kept, rostered⟩ := genesis_seated founded some
  simp only [genesis, bind_ok_iff, pure_ok_iff] at founded
  obtain ⟨witnesses, added, rfl⟩ := founded
  exact ⟨kept, rostered, Nat.le_refl _, fun _ => rfl⟩

/-- Along every chain from a genesis, a block moves the last irreversible block only up and
not beyond the head. Before the voting phase it is a round behind the head, once the head
is that far. In the voting phase it moves to a height that all but a quarter of the
scheduled witnesses have confirmed, who are as many as the schedule counts and distinct. -/
theorem run_irreversible {genesisTime : Nat} {props : ChainProperties}
    {candidates : List (String × Option Key)} {start : State Key} {chain next : FinalState Key}
    {pushes : List (Push Key)} {push : Push Key}
    (founded : genesis genesisTime props candidates = .ok start)
    (ran : pushes.foldlM FinalState.applyBlock ⟨start, 0⟩ = .ok chain)
    (applied : chain.applyBlock push = .ok next) :
    chain.lastIrreversibleBlockNum ≤ next.lastIrreversibleBlockNum ∧
      next.lastIrreversibleBlockNum ≤ next.rounds.headBlockNum ∧
      (next.rounds.headBlockNum < startMinerVotingBlock →
        maxWitnesses < next.rounds.headBlockNum →
        next.lastIrreversibleBlockNum = next.rounds.headBlockNum - maxWitnesses) ∧
      (startMinerVotingBlock ≤ next.rounds.headBlockNum →
        chain.lastIrreversibleBlockNum < next.lastIrreversibleBlockNum →
        ∃ signed, chain.signBlock push = .ok signed ∧ signed.rounds.scheduledNames.Nodup ∧
          signed.rounds.scheduledNames.length = signed.rounds.schedule.numScheduledWitnesses ∧
          signed.rounds.schedule.numScheduledWitnesses -
              signed.rounds.schedule.numScheduledWitnesses / 4 ≤
            (signed.rounds.confirmations next.lastIrreversibleBlockNum).length) := by
  have anchored : Anchored chain := by
    cases pushes with
    | nil =>
      rw [List.foldlM_nil, pure_ok_iff] at ran
      subst ran
      exact genesis_anchored founded applied
    | cons first rest =>
      have begun := ran
      rw [List.foldlM_cons, bind_ok_iff] at begun
      obtain ⟨_, stepped, -⟩ := begun
      exact foldlM_invariant (fun _ reached => Anchored reached)
        (fun _ _ _ _ before stepped => (applyBlock_anchored before stepped).1)
        (genesis_anchored founded stepped) ran
  obtain ⟨after, higher⟩ := applyBlock_anchored anchored applied
  refine ⟨higher, after.reached, fun early _ => after.early early, ?_⟩
  intro voting raised
  obtain ⟨signed, final, signing, moved, height, head, -⟩ := applyBlock_final anchored applied
  obtain ⟨rostered, -, before⟩ := signBlock_rostered anchored.rostered signing
  refine ⟨signed, signing, rostered.distinct, rostered.full, ?_⟩
  rcases updateLastIrreversibleBlock_voted (head ▸ voting) moved with rfl | ⟨-, -, counted⟩
  · omega
  · rw [← rostered.full, height]
    exact counted

namespace TwoWitnesses

/-- A block of the first witness, pushed with the check on the undo history. -/
def push (number : Nat) : Push Nat := { block := block [] number, skipUndoHistoryCheck := false }

/-- The blocks of the first round. -/
def round : List (Push Nat) := (List.range 21).map (fun place => push (place + 1))

/-- The first block after a round makes the first block irreversible. -/
theorem first_block_irreversible :
    ∃ start chain next, genesis 300 props [("alice", some 1), ("bob", some 2)] = .ok start ∧
      round.foldlM FinalState.applyBlock ⟨start, 0⟩ = .ok chain ∧
      chain.applyBlock (push 22) = .ok next ∧ next.rounds.headBlockNum = 22 ∧
      chain.lastIrreversibleBlockNum ≤ next.lastIrreversibleBlockNum ∧
      next.lastIrreversibleBlockNum = 1 := by
  obtain ⟨start, founded, _⟩ := exists_ok_of_any
    (genesis 300 props [("alice", some 1), ("bob", some 2)])
    (fun start => (do
      let chain ← round.foldlM FinalState.applyBlock ⟨start, 0⟩
      chain.applyBlock (push 22)).toOption.any (fun next : FinalState Nat =>
        next.rounds.headBlockNum = 22))
    (by decide +kernel)
  obtain ⟨next, reached, head⟩ := exists_ok_of_any _ _ ‹_›
  rw [bind_ok_iff] at reached
  obtain ⟨chain, ran, applied⟩ := reached
  rw [decide_eq_true_eq] at head
  obtain ⟨higher, -, early, -⟩ := run_irreversible founded ran applied
  rw [head] at early
  exact ⟨start, chain, next, founded, ran, applied, head, higher, early (by decide) (by decide)⟩

end TwoWitnesses

end DeipChain.WitnessSchedule
