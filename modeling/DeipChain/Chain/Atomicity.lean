import DeipChain.Chain.Application

/-!
# A block that extends the head and fails

`push_block` promises that a failing block leaves nothing behind. The undo session of
the block keeps that promise for the objects as long as the session is still there, and
nothing keeps it for the block log. Both are decided in the middle of the application,
where the last irreversible block is settled before the remaining steps run.
-/
namespace DeipChain.Chain

open Snapshots Std

variable {Id Tx H R : Type} {hashing : Hashing Id Tx H}

namespace Database

/-- The objects are those before the call with the pending transactions applied to them
again, the head and the last irreversible block are the same, and the log ends at the
last irreversible block. -/
structure Unharmed (processing : Processing Id Tx H R) (before after : Database hashing R) :
    Prop where
  objects : after.store.current =
    (finishPush processing before.pendingTx before.clearPending).store.current
  headNumber : after.core.headBlockNumber = before.clearPending.core.headBlockNumber
  headId : after.core.headBlockId = before.clearPending.core.headBlockId
  irreversible : after.core.lastIrreversibleBlockNum =
    before.clearPending.core.lastIrreversibleBlockNum
  log : after.blockLog.blocks.length ≤ after.core.lastIrreversibleBlockNum

/-- The end of the push for a node whose objects were restored. -/
theorem unharmed_of_restored {processing : Processing Id Tx H R} {before reached : Database hashing R}
    (objects : reached.store.current = before.clearPending.store.current)
    (popped : reached.poppedTx = before.clearPending.poppedTx) :
    Unharmed processing before (finishPush processing before.pendingTx reached) ↔
      reached.blockLog.blocks.length ≤ before.clearPending.core.lastIrreversibleBlockNum := by
  have sameCore : reached.core = before.clearPending.core := congrArg ChainState.core objects
  constructor
  · intro unharmed
    have bound := unharmed.log
    rwa [finishPush_blockLog, finishPush_core, sameCore] at bound
  · intro bound
    refine ⟨?_, ?_, ?_, ?_, ?_⟩
    · rw [finishPush_current, finishPush_current, objects, popped]
    · rw [finishPush_core, sameCore]
    · rw [finishPush_core, sameCore]
    · rw [finishPush_core, sameCore]
    · rwa [finishPush_blockLog, finishPush_core, sameCore]

/-- A block is never its own previous block. -/
theorem id_ne_previous (block : Block Id Tx H) : hashing.id block ≠ block.previous := by
  intro same
  have numbers := hashing.numFromId_id block
  rw [same] at numbers
  omega

variable [DecidableEq Id]

/-- The fork database puts forward a head that is higher than the chain's and does not
build on it. -/
def attemptsSwitch (block : Block Id Tx H) (database : Database hashing R) : Bool :=
  match database.forkDb.pushBlock hashing block with
  | .error _ => false
  | .ok forkDb =>
    match forkDb.head with
    | none => false
    | some newHead =>
      newHead.block.previous ≠ database.core.headBlockId ∧
        hashing.num newHead.block > database.core.headBlockNumber

/-- The log does not run ahead, and if the block gets as far as its new last
irreversible block, that one lies below the block's own session and brings no block
above the old one into the log. -/
def Contained (processing : Processing Id Tx H R) (block : Block Id Tx H)
    (database : Database hashing R) : Prop :=
  database.blockLog.blocks.length ≤ database.core.lastIrreversibleBlockNum ∧
    ∀ forkDb newHead state, database.forkDb.pushBlock hashing block = .ok forkDb →
      forkDb.head = some newHead →
      prepared hashing processing block database.store.current = .ok () state →
        (state.core.lastIrreversibleBlockNum : Int) ≤ database.store.revision ∧
        ¬ (database.core.lastIrreversibleBlockNum < state.core.lastIrreversibleBlockNum ∧
          ∀ num, database.blockLog.blocks.length < num →
            num ≤ database.core.lastIrreversibleBlockNum + 1 →
              Loggable hashing (forkDb.pin [newHead]) num)

variable {processing : Processing Id Tx H R} {block : Block Id Tx H}

/-- A push that extends the head fails in the fork database or in the block. -/
theorem pushUnprotected_error {database reached : Database hashing R} {thrown : ChainError}
    (plain : attemptsSwitch block database = false)
    (failed : pushUnprotected processing block database = .error thrown reached) :
    (database.forkDb.pushBlock hashing block = .error thrown ∧ reached = database) ∨
      ∃ forkDb newHead applied, database.forkDb.pushBlock hashing block = .ok forkDb ∧
        forkDb.head = some newHead ∧
        tryBlock processing block { database with forkDb := forkDb.pin [newHead] } =
          .error thrown applied ∧
        reached = { applied with
          forkDb := applied.forkDb.remove hashing (hashing.id block) } := by
  unfold pushUnprotected at failed
  split at failed
  · rename_i refused accepts
    cases failed
    exact .inl ⟨accepts, rfl⟩
  · rename_i forkDb accepts
    obtain ⟨newHead, top⟩ := ForkDatabase.pushBlock_head accepts
    simp only [top] at failed
    split at failed
    · rename_i apart
      split at failed
      · rename_i higher
        simp [attemptsSwitch, accepts, top, apart] at plain
        omega
      · cases failed
    · split at failed
      · cases failed
      · rename_i other applied throws
        cases failed
        exact .inr ⟨forkDb, newHead, applied, accepts, top, throws, rfl⟩

/-- A failed application leaves the objects as they were, with the log it has written,
or else leaves the head on the failed block. -/
theorem tryBlock_error {database reached : Database hashing R} {thrown : ChainError}
    (failed : tryBlock processing block database = .error thrown reached) :
    reached.poppedTx = database.poppedTx ∧
      match prepared hashing processing block database.store.current with
      | .error _ _ => reached = database
      | .ok _ state =>
        (((state.core.lastIrreversibleBlockNum : Int) ≤ database.store.revision ∧
            reached.store = database.store.commit state.core.lastIrreversibleBlockNum) ∨
          (database.store.revision < (state.core.lastIrreversibleBlockNum : Int) ∧
            reached.core.headBlockId = hashing.id block)) ∧
        reached.blockLog = left (writeLog database.forkDb
          (state.core.lastIrreversibleBlockNum - database.blockLog.blocks.length)
          database.blockLog) := by
  cases prepares : prepared hashing processing block database.store.current with
  | error other state =>
    rw [tryBlock_unprepared prepares] at failed
    cases failed
    exact ⟨rfl, rfl⟩
  | ok _ state =>
    obtain ⟨_, _, _, num, _, raised⟩ := prepared_ok prepares
    have headId : state.core.headBlockId = hashing.id block := by rw [raised]; rfl
    rcases Int.lt_or_le database.store.revision (state.core.lastIrreversibleBlockNum : Int)
      with committed | survives
    · rw [tryBlock_closed prepares committed] at failed
      split at failed
      · rename_i other log wrote
        cases failed
        exact ⟨rfl, .inr ⟨committed, headId⟩, by simp [wrote, left]⟩
      · rename_i log wrote
        have kept := finished_core hashing processing block state
        cases finishes : finished hashing processing block state with
        | ok _ after =>
          rw [finishes] at failed
          cases failed
        | error other after =>
          rw [finishes] at failed
          rw [finishes, left] at kept
          cases failed
          refine ⟨rfl, .inr ⟨committed, ?_⟩, by simp [wrote, left]⟩
          rw [core, kept]
          exact headId
    · rw [tryBlock_open prepares survives] at failed
      split at failed
      · rename_i other log wrote
        cases failed
        exact ⟨rfl, .inl ⟨survives, rfl⟩, by simp [wrote, left]⟩
      · rename_i log wrote
        split at failed
        · cases failed
          exact ⟨rfl, .inl ⟨survives, rfl⟩, by simp [wrote, left]⟩
        · cases failed

/-- A push that extends the head and throws leaves nothing behind exactly when its
effects were contained.

Proof: a refused block, or one that throws before the commit, changes nothing the
statement is about. Past the commit, a surviving session restores the objects and only
the log can differ, while a committed session leaves the head on the failed block. -/
theorem failed_extension_unharmed_iff (database after : Database hashing R)
    (thrown : ChainError)
    (extending : database.clearPending.core.headBlockId = block.previous)
    (plain : attemptsSwitch block database.clearPending = false)
    (failed : pushBlock processing block database = .error thrown after) :
    Unharmed processing database after ↔ Contained processing block database.clearPending := by
  unfold pushBlock at failed
  split at failed
  · cases failed
  · rename_i other reached throws
    cases failed
    rcases pushUnprotected_error plain throws with ⟨refused, rfl⟩ | accepted
    · refine (unharmed_of_restored rfl rfl).trans ?_
      constructor
      · intro bound
        refine ⟨bound, fun forkDb newHead state accepts => ?_⟩
        rw [refused] at accepts
        cases accepts
      · exact fun contained => contained.1
    · obtain ⟨forkDb, newHead, applied, accepts, top, tried, rfl⟩ := accepted
      obtain ⟨popped, rest⟩ := tryBlock_error tried
      cases prepares : prepared hashing processing block database.clearPending.store.current with
      | error other state =>
        simp only [prepares] at rest
        subst rest
        refine Iff.trans (unharmed_of_restored ?_ ?_) ?_
        · rfl
        · rfl
        constructor
        · intro bound
          refine ⟨bound, fun otherDb otherHead reached _ _ done => ?_⟩
          rw [prepares] at done
          cases done
        · exact fun contained => contained.1
      | ok _ state =>
        simp only [prepares] at rest
        obtain ⟨outcome, logged⟩ := rest
        have grown := writeLog_bounds (forkDb.pin [newHead])
          (state.core.lastIrreversibleBlockNum - database.clearPending.blockLog.blocks.length)
          database.clearPending.blockLog
        rcases outcome with ⟨survives, committed⟩ | ⟨lost, head⟩
        · refine Iff.trans (unharmed_of_restored ?_ popped) ?_
          · dsimp only
            rw [committed]
            rfl
          simp only [logged]
          by_cases within : database.clearPending.blockLog.blocks.length ≤
              database.clearPending.core.lastIrreversibleBlockNum
          · have reaches := @writeLog_reaches _ _ _ hashing (forkDb.pin [newHead])
              (state.core.lastIrreversibleBlockNum -
                database.clearPending.blockLog.blocks.length) _ _ within
            constructor
            · intro bound
              refine ⟨within, fun otherDb otherHead reached acceptsOther topOther done => ?_⟩
              rw [accepts] at acceptsOther
              cases acceptsOther
              rw [top] at topOther
              cases topOther
              rw [prepares] at done
              cases done
              refine ⟨survives, fun raised => ?_⟩
              have past := reaches.mpr ⟨by omega, raised.2⟩
              omega
            · intro contained
              by_contra past
              have reach := reaches.mp (by omega)
              exact (contained.2 forkDb newHead state accepts top prepares).2 ⟨by omega, reach.2⟩
          · constructor
            · intro bound
              omega
            · exact fun contained => absurd contained.1 within
        · constructor
          · intro unharmed
            have same := unharmed.headId
            rw [finishPush_core, extending] at same
            exact absurd (head.symm.trans same) (id_ne_previous block)
          · intro contained
            have below := (contained.2 forkDb newHead state accepts top prepares).1
            exact absurd below (Int.not_le.mpr lost)

end Database

/-!
## A node that does not know the next hardfork

The witnesses vote for a hardfork in the header extensions of their blocks. Once a node
that lacks it has counted the votes, `process_hardforks` throws in every block from the
time of the hardfork on, long after the block has moved the last irreversible block.
-/

/-- The header fields of a voting block: its time, and the version and the time it votes
for. -/
structure VotingHeader where
  timestamp : Nat
  vote : Option (Nat × Nat)
  deriving DecidableEq

/-- The objects behind the hardforks: the votes of the witnesses and
`hardfork_property_object`, a version being the number of its hardfork. -/
structure VersionState where
  time : Nat
  votes : ExtTreeMap String (Nat × Nat)
  lastHardfork : Nat
  nextHardfork : Nat
  nextHardforkTime : Nat
  deriving DecidableEq

namespace VersionState

/-- `DEIP_NUM_HARDFORKS` -/
def numHardforks : Nat := 1

/-- `DEIP_HARDFORK_REQUIRED_WITNESSES` -/
def requiredWitnesses : Nat := 17

/-- The scheduled witnesses of the chain. -/
def scheduled : List String :=
  ["a", "b", "c", "d", "e", "f", "g", "h", "i", "j", "k", "l", "m", "n", "o", "p", "q", "r",
    "s", "t", "u"]

/-- The loop of `process_hardforks`; it applies a hardfork in every round but the
last. -/
def processHardforks : Nat → VersionState → Script VersionState ChainError
  | 0, _ => .done
  | fuel + 1, state =>
    if state.lastHardfork < state.nextHardfork ∧ state.nextHardforkTime ≤ state.time then
      if state.lastHardfork < numHardforks then
        let applied := { state with lastHardfork := state.lastHardfork + 1 }
        .write applied (processHardforks fuel applied)
      else .throw (.rejected "unknown_hardfork_exception")
    else .done

/-- The hardfork votes of `update_witness_schedule`. -/
def countVotes (state : VersionState) : VersionState :=
  let votes := scheduled.filterMap (fun witness => state.votes[witness]?)
  match votes.find? (fun vote => requiredWitnesses ≤ votes.count vote) with
  | some vote => { state with nextHardfork := vote.1, nextHardforkTime := vote.2 }
  | none => { state with nextHardfork := state.lastHardfork }

/-- The steps of a chain on which nothing happens but the voting. -/
def processing : Processing (List (Entry Unit VotingHeader)) Unit VotingHeader VersionState where
  merkleMatches _ := true
  beginBlock block _ state :=
    if block.header.timestamp ≤ state.time then .throw (.rejected "head_block_time")
    else
      match block.header.vote with
      | some vote => .write { state with votes := state.votes.insert block.witness vote } .done
      | none => .done
  applyTransaction _ _ _ := .done
  updateGlobalDynamicData block _ state :=
    .write { state with time := block.header.timestamp } .done
  updateSigningWitness _ _ _ := .done
  currentShuffledWitnesses _ := scheduled
  clearExpiredTransactions _ _ := .done
  clearExpiredRecentEntities _ _ _ := .done
  clearExpiredProposals _ _ := .done
  clearExpiredDisciplineSupplies _ _ := .done
  updateWitnessSchedule core state :=
    if core.headBlockNumber % maxWitnesses = 0 then .write state.countVotes .done else .done
  processResearchTokenSales _ _ := .done
  processFunds _ _ := .done
  processCommonTokensWithdrawals _ _ := .done
  processAccountRecovery _ _ := .done
  processHardforks _ state := VersionState.processHardforks (numHardforks + 1) state
  processDisciplineSupplies _ _ := .done
  processExpertiseAllocationProposals _ _ := .done
  processNdaContracts _ _ := .done
  notifyAppliedBlock _ _ _ := .done
  isKnownTransaction _ _ := false

/-- The first round: every witness votes for hardfork 2 at second 66. -/
def firstRound : List (Entry Unit VotingHeader) :=
  (scheduled.zipIdx.map (fun turn => (turn.1, [], ⟨3 * (turn.2 + 1), some (2, 66)⟩))).reverse

/-- The node after the first round. -/
def votedNode : Database (Hashing.spelled Unit VotingHeader) VersionState :=
  Database.pushBlocks processing (Entry.blocks firstRound)
    (Database.genesis (Hashing.spelled Unit VotingHeader) ⟨0, ∅, 0, 0, 0⟩)

/-- The first block at the time of the hardfork. -/
def hardforkBlock : Block (List (Entry Unit VotingHeader)) Unit VotingHeader :=
  Entry.block ("a", [], ⟨66, none⟩) firstRound

/-- A block with the time of the one before it. -/
def staleBlock : Block (List (Entry Unit VotingHeader)) Unit VotingHeader :=
  Entry.block ("a", [], ⟨63, none⟩) firstRound

/-- The hardfork block extends the head and is rejected, and block 1 stays in the log
although the last irreversible block is back at 0. -/
theorem unknown_hardfork_harms :
    votedNode.clearPending.core.headBlockId = hardforkBlock.previous ∧
      Database.attemptsSwitch hardforkBlock votedNode.clearPending = false ∧
      ∃ thrown after, Database.pushBlock processing hardforkBlock votedNode = .error thrown after ∧
        ¬ Database.Unharmed processing votedNode after := by
  refine ⟨by decide +kernel, by decide +kernel, ?_⟩
  have runsAhead : ¬ (left (Database.pushBlock processing hardforkBlock votedNode)).blockLog.blocks.length ≤
      (left (Database.pushBlock processing hardforkBlock votedNode)).core.lastIrreversibleBlockNum := by
    decide +kernel
  have throws : thrownBy (Database.pushBlock processing hardforkBlock votedNode) =
      some (.rejected "unknown_hardfork_exception") := by
    decide +kernel
  cases outcome : Database.pushBlock processing hardforkBlock votedNode with
  | ok switched after =>
    rw [outcome] at throws
    cases throws
  | error thrown after =>
    rw [outcome] at runsAhead
    exact ⟨thrown, after, rfl, fun unharmed => runsAhead unharmed.log⟩

/-- The stale block extends the head and is rejected by the header check, and nothing is
left behind. -/
theorem stale_block_unharmed :
    ∃ thrown after, Database.pushBlock processing staleBlock votedNode = .error thrown after ∧
      Database.Unharmed processing votedNode after := by
  have throws : thrownBy (Database.pushBlock processing staleBlock votedNode) =
      some (.rejected "head_block_time") := by
    decide +kernel
  have unprepared : thrownBy (prepared (Hashing.spelled Unit VotingHeader) processing staleBlock
      votedNode.clearPending.store.current) = some (.rejected "head_block_time") := by
    decide +kernel
  cases outcome : Database.pushBlock processing staleBlock votedNode with
  | ok switched after =>
    rw [outcome] at throws
    cases throws
  | error thrown after =>
    have contained : Database.Contained processing staleBlock votedNode.clearPending := by
      refine ⟨by decide +kernel, fun forkDb newHead state _ _ prepares => ?_⟩
      rw [prepares] at unprepared
      cases unprepared
    exact ⟨thrown, after, rfl, (Database.failed_extension_unharmed_iff votedNode after thrown
      (by decide +kernel) (by decide +kernel) outcome).mpr contained⟩

end VersionState

end DeipChain.Chain
