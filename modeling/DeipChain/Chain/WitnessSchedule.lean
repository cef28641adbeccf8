import DeipChain.Chain.Block
import DeipChain.Lib.Result
import DeipChain.Lib.Selection
import Mathlib.Data.String.Basic

/-!
# The schedule of witnesses

Every `DEIP_MAX_WITNESSES` blocks `update_witness_schedule` picks the witnesses of the next
round: those with the most votes, and behind them the ones that are first in virtual time.
Witnesses without a signing key are passed over, and the picked ones are shuffled. Between
two rounds the witnesses change: `witness_update` registers one or changes its key, votes
move with their virtual times, and a witness that has missed too many blocks loses its
key.

The number that is expected to be picked counts the witnesses without a key as well. So
the update throws when fewer than a full round have a key, unless all have.
-/
namespace DeipChain.WitnessSchedule

open Result Selection Chain

/-- `DEIP_MAX_VOTED_WITNESSES` -/
def maxVotedWitnesses : Nat := 20

/-- `DEIP_HARDFORK_REQUIRED_WITNESSES` -/
def hardforkRequiredWitnesses : Nat := 17

/-- `DEIP_WITNESS_MISSED_BLOCKS_THRESHOLD` -/
def witnessMissedBlocksThreshold : Nat := 28800 / 2

/-- `DEIP_BLOCK_INTERVAL` -/
def blockInterval : Nat := 3

/-- `witness_schedule_object::top20_weight` -/
def top20Weight : Nat := 1

/-- `witness_schedule_object::timeshare_weight` -/
def timeshareWeight : Nat := 5

/-- `VIRTUAL_SCHEDULE_LAP_LENGTH`, the greatest `uint128`. -/
def virtualScheduleLapLength : Nat := 2 ^ 128 - 1

/-- `chain_properties` -/
structure ChainProperties where
  accountCreationFee : Int
  maximumBlockSize : Nat

/-- `witness_schedule_type` -/
inductive ScheduleType where
  | top20
  | timeshare
  | none

/-- `witness_object`: no signing key is the key `public_key_type()`. -/
structure Witness (Key : Type) where
  id : Nat
  owner : String
  signingKey : Option Key
  votes : Int
  schedule : ScheduleType
  virtualLastUpdate : Nat
  virtualPosition : Nat
  virtualScheduledTime : Nat
  totalMissed : Nat
  lastAslot : Nat
  lastConfirmedBlockNum : Nat
  props : ChainProperties
  runningVersion : Nat
  hardforkVersionVote : Nat
  hardforkTimeVote : Nat

/-- `witness_schedule_object` -/
structure Schedule where
  currentVirtualTime : Nat
  nextShuffleBlockNum : Nat
  currentShuffledWitnesses : List String
  numScheduledWitnesses : Nat
  witnessPayNormalizationFactor : Nat
  medianProps : ChainProperties
  majorityVersion : Nat

/-- The witnesses in the order of their ids, the schedule, and what they are read with. -/
structure State (Key : Type) where
  witnesses : List (Witness Key)
  schedule : Schedule
  headBlockNum : Nat
  time : Nat
  currentAslot : Nat
  genesisTime : Nat
  maximumBlockSize : Nat
  currentHardforkVersion : Nat
  nextHardfork : Nat
  nextHardforkTime : Nat

/-- The exceptions of the functions below. -/
inductive ScheduleError where
  | unknownWitness (name : String)
  | divisionByZero
  | activeWitnesses (selected expected : Nat)
  | votesExceedTotal
  | votesOverflow
  | emptyOwner
  | uniqueness (name : String)
  | earlyBlock
  | wrongWitness
  | undoHistory (lastIrreversible head : Nat)
  | staleVersion (name : String)
  | unknownHardfork
  | hardforkOrder (hardfork : Nat)
  deriving DecidableEq

variable {Key : Type}

/-- Whether a witness has a key to sign with. -/
def Witness.enabled (witness : Witness Key) : Bool := witness.signingKey.isSome

/-- The order of `by_vote_name`: most votes first, then by name. -/
def votesFirst (one other : Witness Key) : Prop :=
  other.votes < one.votes ∨ other.votes = one.votes ∧ one.owner ≤ other.owner

/-- The order of `by_schedule_time`. -/
def soonest (one other : Witness Key) : Prop :=
  one.virtualScheduledTime < other.virtualScheduledTime ∨
    one.virtualScheduledTime = other.virtualScheduledTime ∧ one.id ≤ other.id

instance : DecidableRel (@votesFirst Key) := fun one other =>
  inferInstanceAs (Decidable (other.votes < one.votes ∨
    other.votes = one.votes ∧ one.owner ≤ other.owner))

instance : DecidableRel (@soonest Key) := fun one other =>
  inferInstanceAs (Decidable (one.virtualScheduledTime < other.virtualScheduledTime ∨
    one.virtualScheduledTime = other.virtualScheduledTime ∧ one.id ≤ other.id))

/-- A signed number as a `uint128`. -/
def toUint128 (value : Int) : Nat := (value % 2 ^ 128).toNat

/-- Division of `uint128`. -/
def divide (dividend divisor : Nat) : Except ScheduleError Nat :=
  if divisor = 0 then .error .divisionByZero else .ok (dividend / divisor)

/-- `VIRTUAL_SCHEDULE_LAP_LENGTH / (votes + 1)` -/
def lap (votes : Int) : Except ScheduleError Nat :=
  divide virtualScheduleLapLength (toUint128 (votes + 1))

/-- `get_witness` -/
def State.getWitness (name : String) (state : State Key) : Except ScheduleError (Witness Key) :=
  expect (state.witnesses.find? (fun witness => witness.owner = name)) (.unknownWitness name)

/-- `modify` of the witness with an id. -/
def State.modifyWitness (id : Nat) (change : Witness Key → Witness Key) (state : State Key) :
    State Key :=
  { state with
    witnesses :=
      state.witnesses.map (fun witness => if witness.id = id then change witness else witness) }

/-- The loop over `by_vote_name`: witnesses without a key are passed over. -/
def selectVoted : Nat → List (Witness Key) → List (Witness Key)
  | 0, _ => []
  | _, [] => []
  | limit + 1, witness :: rest =>
    if witness.enabled then witness :: selectVoted limit rest else selectVoted (limit + 1) rest

/-- The loop over `by_schedule_time`, with the number of places left: the witnesses it
passes, and those it picks. -/
def selectTimeshare (voted : List Nat) : Nat → List (Witness Key) →
    List (Witness Key) × List (Witness Key)
  | 0, _ => ([], [])
  | _, [] => ([], [])
  | places + 1, witness :: rest =>
    if witness.enabled && !voted.contains witness.id then
      let (processed, picked) := selectTimeshare voted places rest
      (witness :: processed, witness :: picked)
    else
      let (processed, picked) := selectTimeshare voted (places + 1) rest
      (witness :: processed, picked)

/-- `schedule` of the picked witnesses. -/
def State.markSchedule (mark : ScheduleType) (picked : List (Witness Key)) (state : State Key) :
    State Key :=
  picked.foldl (fun state witness =>
    state.modifyWitness witness.id (fun found => { found with schedule := mark })) state

/-- The new virtual times of the processed witnesses. The flag says that one has gone
beyond the greatest number. -/
def advance (newVirtualTime : Nat) : List (Witness Key) → State Key →
    Except ScheduleError (Bool × State Key)
  | [], state => .ok (false, state)
  | witness :: rest, state => do
    let step ← lap witness.votes
    let scheduled := (newVirtualTime + step) % 2 ^ 128
    if scheduled < newVirtualTime then pure (true, state)
    else advance newVirtualTime rest (state.modifyWitness witness.id (fun found =>
      { found with
        virtualPosition := 0
        virtualLastUpdate := newVirtualTime
        virtualScheduledTime := scheduled }))

/-- `_reset_virtual_schedule_time` -/
def State.resetVirtualScheduleTime (state : State Key) : Except ScheduleError (State Key) := do
  let reset ← state.witnesses.mapM (fun witness => do
    let scheduled ← lap witness.votes
    pure { witness with
      virtualPosition := 0
      virtualLastUpdate := 0
      virtualScheduledTime := scheduled })
  pure { state with
    witnesses := reset
    schedule := { state.schedule with currentVirtualTime := 0 } }

/-- The entries of a list with how often they occur. -/
def tally {A : Type} [DecidableEq A] : List A → List (A × Nat)
  | [] => []
  | first :: rest =>
    match (tally rest).lookup first with
    | some count => (first, count + 1) :: (tally rest).filter (fun entry => entry.1 ≠ first)
    | none => (first, 1) :: tally rest

/-- The version that enough of the scheduled witnesses run, the highest versions counted
first. -/
def majorityVersion (current : Nat) (versions : List Nat) : Nat :=
  let counted := (tally versions).insertionSort (fun one other => other.1 ≤ one.1)
  let running := counted.map (fun entry =>
    (entry.1, ((counted.takeWhile (fun other => entry.1 < other.1)).map Prod.snd).sum + entry.2))
  match running.find? (fun entry => hardforkRequiredWitnesses ≤ entry.2) with
  | some entry => entry.1
  | none => current

/-- The hardfork that enough of the scheduled witnesses vote for. -/
def votedHardfork (votes : List (Nat × Nat)) : Option (Nat × Nat) :=
  let counted := (tally votes).insertionSort (fun one other =>
    other.1.1 < one.1.1 ∨ other.1.1 = one.1.1 ∧ other.1.2 ≤ one.1.2)
  (counted.find? (fun entry => hardforkRequiredWitnesses ≤ entry.2)).map Prod.fst

/-- The versions and the hardfork votes of the scheduled witnesses, counted. -/
def State.countVersions (state : State Key) : Except ScheduleError (State Key) := do
  let scheduled ← (state.schedule.currentShuffledWitnesses.take
    state.schedule.numScheduledWitnesses).mapM (fun name => state.getWitness name)
  let version := majorityVersion state.schedule.majorityVersion
    (scheduled.map Witness.runningVersion)
  let counted := { state with
    schedule := { state.schedule with majorityVersion := version } }
  match votedHardfork
      (scheduled.map (fun witness => (witness.hardforkVersionVote, witness.hardforkTimeVote))) with
  | some (hardfork, at_) =>
    pure { counted with nextHardfork := hardfork, nextHardforkTime := at_ }
  | none => pure { counted with nextHardfork := state.currentHardforkVersion }

/-- The random number of the shuffle for a place, in 64 bits. -/
def shuffleNumber (time place : Nat) : Nat :=
  let start := ((time * 2 ^ 32) % 2 ^ 64 + (place * 2685821657736338717) % 2 ^ 64) % 2 ^ 64
  let first := start ^^^ (start >>> 12)
  let second := first ^^^ ((first <<< 25) % 2 ^ 64)
  let third := second ^^^ (second >>> 27)
  (third * 2685821657736338717) % 2 ^ 64

/-- The places that the shuffle of a number of witnesses exchanges, in order. -/
def shufflePlaces (time count : Nat) : List (Nat × Nat) :=
  (List.range count).map (fun place =>
    (place, place + shuffleNumber time place % (count - place)))

/-- The array of scheduled witnesses with its front shuffled. -/
def shuffle (time count : Nat) (names : List String) : List String :=
  (shufflePlaces time count).foldl (fun names place => exchange place.1 place.2 names) names

/-- The element at the middle of a sorted list. -/
def median (order : Witness Key → Witness Key → Bool) (witnesses : List (Witness Key)) :
    Option (Witness Key) :=
  (witnesses.insertionSort (fun one other => order one other = true))[witnesses.length / 2]?

/-- `_update_median_witness_props` -/
def State.updateMedianWitnessProps (state : State Key) : Except ScheduleError (State Key) := do
  let active ← (state.schedule.currentShuffledWitnesses.take
    state.schedule.numScheduledWitnesses).mapM (fun name => state.getWitness name)
  let fee ← expect (median (fun one other =>
    one.props.accountCreationFee ≤ other.props.accountCreationFee) active) (.unknownWitness "")
  let size ← expect (median (fun one other =>
    one.props.maximumBlockSize ≤ other.props.maximumBlockSize) active) (.unknownWitness "")
  pure { state with
    schedule := { state.schedule with
      medianProps :=
        { accountCreationFee := fee.props.accountCreationFee
          maximumBlockSize := size.props.maximumBlockSize } }
    maximumBlockSize := size.props.maximumBlockSize }

/-- The schedule of the next round, shuffled. -/
def State.writeSchedule (voted timeshare : List (Witness Key)) (newVirtualTime : Nat)
    (state : State Key) : State Key :=
  let active := (voted ++ timeshare).map Witness.owner
  let count := max active.length 1
  { state with
    schedule := { state.schedule with
      currentShuffledWitnesses := shuffle state.time count
        (active ++ List.replicate (maxWitnesses - active.length) "")
      numScheduledWitnesses := count
      witnessPayNormalizationFactor :=
        top20Weight * voted.length + timeshareWeight * timeshare.length
      currentVirtualTime := newVirtualTime
      nextShuffleBlockNum := state.headBlockNum + count } }

/-- The body of `update_witness_schedule`. -/
def State.reschedule (state : State Key) : Except ScheduleError (State Key) := do
  let voted := selectVoted maxVotedWitnesses (state.witnesses.insertionSort votesFirst)
  let (processed, timeshare) := selectTimeshare (voted.map Witness.id)
    (maxWitnesses - voted.length) (state.witnesses.insertionSort soonest)
  let marked := (state.markSchedule .top20 voted).markSchedule .timeshare timeshare
  let newVirtualTime :=
    (processed.getLast?.map Witness.virtualScheduledTime).getD state.schedule.currentVirtualTime
  let (overflown, advanced) ← advance newVirtualTime processed marked
  let timed ← if overflown then advanced.resetVirtualScheduleTime else pure advanced
  let expected := min maxWitnesses state.witnesses.length
  require ((voted ++ timeshare).length = expected)
    (.activeWitnesses (voted ++ timeshare).length expected)
  let counted ← timed.countVersions
  (counted.writeSchedule voted timeshare
    (if overflown then 0 else newVirtualTime)).updateMedianWitnessProps

/-- `update_witness_schedule` -/
def State.updateWitnessSchedule (state : State Key) : Except ScheduleError (State Key) :=
  if state.headBlockNum % maxWitnesses = 0 then state.reschedule else .ok state

/-!
## Between two rounds
-/

/-- A change that an operation or a block process makes to a witness. -/
inductive Event (Key : Type) where
  | witnessUpdate (owner : String) (signingKey : Option Key) (props : ChainProperties)
  | adjustWitnessVote (owner : String) (delta total : Int)
  | reportVersion (owner : String) (version : Nat)
  | voteHardfork (owner : String) (version at_ : Nat)

/-- A new `witness_object`. -/
def Witness.new (id : Nat) (owner : String) (signingKey : Option Key) (schedule : ScheduleType)
    (props : ChainProperties) (genesisTime : Nat) : Witness Key :=
  { id := id
    owner := owner
    signingKey := signingKey
    votes := 0
    schedule := schedule
    virtualLastUpdate := 0
    virtualPosition := 0
    virtualScheduledTime := 2 ^ 128 - 1
    totalMissed := 0
    lastAslot := 0
    lastConfirmedBlockNum := 0
    props := props
    runningVersion := 0
    hardforkVersionVote := 0
    hardforkTimeVote := genesisTime }

/-- `witness_update_evaluator`, after its checks. -/
def State.witnessUpdate (owner : String) (signingKey : Option Key) (props : ChainProperties)
    (state : State Key) : State Key :=
  match state.witnesses.find? (fun witness => witness.owner = owner) with
  | some witness =>
    state.modifyWitness witness.id (fun found =>
      { found with signingKey := signingKey, props := props })
  | none =>
    { state with
      witnesses := state.witnesses ++
        [.new state.witnesses.length owner signingKey .none props state.genesisTime] }

/-- The new votes of `adjust_witness_vote`: `share_type` throws on overflow. -/
def adjustedVotes (votes delta total : Int) : Except ScheduleError Int := do
  require (-2 ^ 63 ≤ votes + delta ∧ votes + delta < 2 ^ 63) .votesOverflow
  require (votes + delta ≤ total) .votesExceedTotal
  pure (votes + delta)

/-- `adjust_witness_vote` -/
def State.adjustWitnessVote (owner : String) (delta total : Int) (state : State Key) :
    Except ScheduleError (State Key) := do
  let witness ← state.getWitness owner
  let now := state.schedule.currentVirtualTime
  let elapsed : Nat := toUint128 ((now : Int) - witness.virtualLastUpdate)
  let position : Nat := (witness.virtualPosition + toUint128 witness.votes * elapsed) % 2 ^ 128
  let votes ← adjustedVotes witness.votes delta total
  let rest ← divide (toUint128 ((virtualScheduleLapLength : Int) - position))
    (toUint128 (votes + 1))
  let scheduled := (now + rest) % 2 ^ 128
  pure (state.modifyWitness witness.id (fun found =>
    { found with
      votes := votes
      virtualPosition := position
      virtualLastUpdate := now
      virtualScheduledTime := if scheduled < now then 2 ^ 128 - 1 else scheduled }))

/-- What an event does. -/
def State.applyEvent (state : State Key) : Event Key → Except ScheduleError (State Key)
  | .witnessUpdate owner signingKey props => pure (state.witnessUpdate owner signingKey props)
  | .adjustWitnessVote owner delta total => state.adjustWitnessVote owner delta total
  | .reportVersion owner version => do
    let witness ← state.getWitness owner
    pure (state.modifyWitness witness.id (fun found => { found with runningVersion := version }))
  | .voteHardfork owner version at_ => do
    let witness ← state.getWitness owner
    pure (state.modifyWitness witness.id (fun found =>
      { found with hardforkVersionVote := version, hardforkTimeVote := at_ }))

/-- A block: its header, and what its parts do to the witnesses, in order: the extensions
of the header and the transactions, the expired proposals, and the processes after the
schedule is updated. -/
structure Block (Key : Type) where
  witness : String
  timestamp : Nat
  transactions : List (Event Key)
  expired : List (Event Key)
  processes : List (Event Key)

/-- `get_slot_time` -/
def State.getSlotTime (slot : Nat) (state : State Key) : Nat :=
  if slot = 0 then 0
  else if state.headBlockNum = 0 then state.time + slot * blockInterval
  else state.time / blockInterval * blockInterval + slot * blockInterval

/-- `get_slot_at_time` -/
def State.getSlotAtTime (when_ : Nat) (state : State Key) : Nat :=
  if when_ < state.getSlotTime 1 then 0
  else (when_ - state.getSlotTime 1) / blockInterval + 1

/-- `get_scheduled_witness` -/
def State.getScheduledWitness (slot : Nat) (state : State Key) : String :=
  state.schedule.currentShuffledWitnesses[
    (state.currentAslot + slot) % state.schedule.numScheduledWitnesses]?.getD ""

/-- The witness of the block is registered and scheduled. -/
def State.validateBlockHeader (block : Block Key) (state : State Key) :
    Except ScheduleError Unit := do
  require (state.time < block.timestamp) .earlyBlock
  let witness ← state.getWitness block.witness
  require (0 < state.getSlotAtTime block.timestamp) .earlyBlock
  require (witness.owner = state.getScheduledWitness (state.getSlotAtTime block.timestamp))
    .wrongWitness

/-- A missed slot: the key of a witness that has been silent too long is taken away. -/
def State.missSlot (block : Block Key) (state : State Key) (slot : Nat) :
    Except ScheduleError (State Key) := do
  let missed ← state.getWitness (state.getScheduledWitness (slot + 1))
  if missed.owner = block.witness then pure state
  else pure (state.modifyWitness missed.id (fun found =>
    { found with
      totalMissed := found.totalMissed + 1
      signingKey :=
        if witnessMissedBlocksThreshold < state.headBlockNum - found.lastConfirmedBlockNum then none
        else found.signingKey }))

/-- `update_global_dynamic_data` -/
def State.updateGlobalDynamicData (block : Block Key) (state : State Key) :
    Except ScheduleError (State Key) := do
  let missed := if state.time = 0 then 0 else state.getSlotAtTime block.timestamp - 1
  let slotted ← (List.range missed).foldlM (State.missSlot block) state
  pure { slotted with
    headBlockNum := state.headBlockNum + 1
    time := block.timestamp
    currentAslot := state.currentAslot + missed + 1 }

/-- `update_signing_witness` -/
def State.updateSigningWitness (block : Block Key) (state : State Key) :
    Except ScheduleError (State Key) := do
  let witness ← state.getWitness block.witness
  pure (state.modifyWitness witness.id (fun found =>
    { found with
      lastAslot := state.currentAslot + state.getSlotAtTime block.timestamp
      lastConfirmedBlockNum := state.headBlockNum }))

/-- `_apply_block` up to `update_witness_schedule`. -/
def State.beforeSchedule (state : State Key) (block : Block Key) :
    Except ScheduleError (State Key) := do
  state.validateBlockHeader block
  let applied ← block.transactions.foldlM State.applyEvent state
  let headed ← applied.updateGlobalDynamicData block
  let signed ← headed.updateSigningWitness block
  block.expired.foldlM State.applyEvent signed

/-- `_apply_block` -/
def State.applyBlock (state : State Key) (block : Block Key) : Except ScheduleError (State Key) := do
  let ready ← state.beforeSchedule block
  let scheduled ← ready.updateWitnessSchedule
  block.processes.foldlM State.applyEvent scheduled

/-- One of the candidates of `init_genesis_witnesses`. -/
def addCandidate (genesisTime : Nat) (props : ChainProperties) (witnesses : List (Witness Key))
    (candidate : String × Option Key) : Except ScheduleError (List (Witness Key)) := do
  require (candidate.1 ≠ "") .emptyOwner
  require (candidate.1 ∉ witnesses.map Witness.owner) (.uniqueness candidate.1)
  pure (witnesses ++
    [.new witnesses.length candidate.1 candidate.2 .top20 props genesisTime])

/-- `init_genesis_witnesses` and `init_genesis_witness_schedule` -/
def genesis (genesisTime : Nat) (props : ChainProperties)
    (candidates : List (String × Option Key)) : Except ScheduleError (State Key) := do
  let witnesses ← candidates.foldlM (addCandidate genesisTime props) []
  let names := (candidates.map Prod.fst).take maxWitnesses
  pure
    { witnesses := witnesses
      schedule :=
        { currentVirtualTime := 0
          nextShuffleBlockNum := 1
          currentShuffledWitnesses := names ++ List.replicate (maxWitnesses - names.length) ""
          numScheduledWitnesses := 1
          witnessPayNormalizationFactor := 25
          medianProps := props
          majorityVersion := 0 }
      headBlockNum := 0
      time := genesisTime
      currentAslot := 0
      genesisTime := genesisTime
      maximumBlockSize := props.maximumBlockSize
      currentHardforkVersion := 0
      nextHardfork := 0
      nextHardforkTime := 0 }

end DeipChain.WitnessSchedule
