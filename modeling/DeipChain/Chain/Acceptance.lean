import DeipChain.Chain.PendingPool
import DeipChain.Chain.SizedBlocks
import Mathlib.Algebra.Order.BigOperators.Group.List

/-!
# Pushing a block of one's own

A block that `_generate_block` has built goes through `push_block` like any other. Its
header passes, and its transactions apply again as they did in the loop that took them:
between the two, only objects are written that no transaction looks at. What can refuse the
block is its size. The loop leaves four bytes for the number of transactions, and the name
of the witness and the extensions of the header come on top of that.

`admissionSteps` is what `_apply_block` does up to the last transaction and
`concludeBlock` what follows, which does not depend on who has built the block.
-/
namespace DeipChain.Chain

open Snapshots Result
open DeipChain.WitnessSchedule (Extension blockInterval)

variable {Id Tx H TxId Rest R Key Digest Signature Other : Type}

section Transactions

variable [DecidableEq TxId] [DecidableEq Digest] [DecidableEq Key]
  {hashing : Hashing Id Tx (SignedHeader Digest Signature)} {skip : SkipFlags}
  {surroundings : Surroundings Id Tx TxId Key Digest Signature Other}
  {state other reached : ChainState Id (Body TxId Tx (Objects Other))} {transaction : Tx}

/-- A transaction passes its checks and changes the other objects. -/
theorem sized_applyTransaction_ok :
    (bodyStep (surroundings.sized.applyTransaction hashing skip transaction) state).eval state =
        .ok () reached ↔
      surroundings.sized.checkTransaction hashing skip transaction state.core state.body =
          .ok () ∧
        ∃ changed, (surroundings.operations transaction state.core state.body.time
            state.body.rest.other).eval state.body.rest.other = .ok () changed ∧
          reached = { state with
            body := { surroundings.sized.remember skip transaction state.body with
              rest := { state.body.rest with other := changed } } } := by
  rw [applyTransaction_ok]
  have onOther := Script.eval_onto
    (fun other => ({ state.body.rest with other := other } : Objects Other))
    (surroundings.operations transaction state.core state.body.time state.body.rest.other)
    state.body.rest.other
  constructor
  · rintro ⟨passed, rest, done, rfl⟩
    obtain ⟨changed, operated, rfl⟩ := outcomeMap_ok.mp (onOther.symm.trans done)
    exact ⟨passed, changed, operated, rfl⟩
  · rintro ⟨passed, changed, done, rfl⟩
    exact ⟨passed, _, onOther.trans (outcomeMap_ok.mpr ⟨changed, done, rfl⟩), rfl⟩

/-- Two states that differ at most in the objects that the header of a block writes. -/
structure Alike (state other : ChainState Id (Body TxId Tx (Objects Other))) : Prop where
  core : state.core = other.core
  time : state.body.time = other.body.time
  transactions : state.body.transactions = other.body.transactions
  objects : state.body.rest.other = other.body.rest.other

/-- A transaction does the same on alike states. -/
theorem Alike.applyTransaction (alike : Alike state other)
    (done : (bodyStep (surroundings.sized.applyTransaction hashing skip transaction) state).eval
      state = .ok () reached) :
    ∃ again, (bodyStep (surroundings.sized.applyTransaction hashing skip transaction) other).eval
      other = .ok () again ∧ Alike reached again := by
  obtain ⟨core, time, transactions, objects⟩ := alike
  obtain ⟨passed, changed, operated, rfl⟩ := sized_applyTransaction_ok.mp done
  obtain ⟨_, _, _, ⟨_, _, _, _, _, _, _⟩⟩ := state
  obtain ⟨_, _, _, ⟨_, _, _, _, _, _, _⟩⟩ := other
  dsimp only at core time transactions objects
  subst core time transactions objects
  -- neither the checks nor the operations read what is left
  refine ⟨_, sized_applyTransaction_ok.mpr ⟨passed, changed, operated, rfl⟩, ?_⟩
  simp only [Evaluators.remember]
  split <;> exact ⟨rfl, rfl, rfl, rfl⟩

/-- Transactions one after the other do the same on alike states. -/
theorem Alike.transactionSteps (alike : Alike state other) {transactions : List Tx}
    (done : evalAll (transactionSteps surroundings.sized hashing transactions) state =
      .ok () reached) :
    ∃ again, evalAll (transactionSteps surroundings.sized hashing transactions) other =
      .ok () again ∧ Alike reached again := by
  induction transactions generalizing state other with
  | nil =>
    cases done
    exact ⟨other, rfl, alike⟩
  | cons transaction rest inductionHypothesis =>
    obtain ⟨middle, first, others⟩ := evalAll_cons_ok.mp done
    obtain ⟨middleAgain, firstAgain, middleAlike⟩ := alike.applyTransaction first
    obtain ⟨again, othersAgain, final⟩ := inductionHypothesis middleAlike others
    exact ⟨again, evalAll_cons_ok.mpr ⟨middleAgain, firstAgain, othersAgain⟩, final⟩

/-- Of the objects only the others have changed. -/
structure Undisturbed (state reached : ChainState Id (Body TxId Tx (Objects Other))) : Prop where
  core : reached.core = state.core
  time : reached.body.time = state.body.time
  objects : reached.body.rest = { state.body.rest with other := reached.body.rest.other }

omit [DecidableEq TxId] in
theorem Undisturbed.refl (state : ChainState Id (Body TxId Tx (Objects Other))) :
    Undisturbed state state := ⟨rfl, rfl, rfl⟩

omit [DecidableEq TxId] in
theorem Undisturbed.trans (first : Undisturbed state other) (second : Undisturbed other reached) :
    Undisturbed state reached where
  core := second.core.trans first.core
  time := second.time.trans first.time
  objects := by
    rw [second.objects, first.objects]

theorem applyTransaction_undisturbed
    (done : (bodyStep (surroundings.sized.applyTransaction hashing skip transaction) state).eval
      state = .ok () reached) : Undisturbed state reached := by
  obtain ⟨_, changed, _, rfl⟩ := sized_applyTransaction_ok.mp done
  rw [Evaluators.remember]
  split <;> exact ⟨rfl, rfl, rfl⟩

theorem pendingState_undisturbed (transactions : List Tx)
    (state : ChainState Id (Body TxId Tx (Objects Other))) :
    Undisturbed state
      (Database.pendingState (surroundings.sized.processing hashing skip) transactions state) := by
  induction transactions generalizing state with
  | nil => exact .refl state
  | cons transaction rest inductionHypothesis =>
    rw [Database.pendingState]
    split
    · exact inductionHypothesis state
    · split
      · rename_i applied done
        exact (applyTransaction_undisturbed done).trans (inductionHypothesis applied)
      · exact inductionHypothesis state

end Transactions

section Extensions

variable {objects : Objects Other} {owner : String}

theorem reportOf_modifyReport (change : Reported → Reported) :
    (objects.modifyReport owner change).reportOf owner = change (objects.reportOf owner) := by
  simp [Objects.modifyReport, Objects.reportOf]

theorem processHeaderExtensions_append (first second : List Extension) :
    objects.processHeaderExtensions owner (first ++ second) =
      (objects.processHeaderExtensions owner first).processHeaderExtensions owner second :=
  List.foldl_append

/-- The extensions of a header change the reports alone. -/
theorem processHeaderExtensions_frame (extensions : List Extension) :
    (objects.processHeaderExtensions owner extensions).other = objects.other ∧
      (objects.processHeaderExtensions owner extensions).hardforks = objects.hardforks := by
  rw [Objects.processHeaderExtensions]
  induction extensions generalizing objects with
  | nil => exact ⟨rfl, rfl⟩
  | cons extension rest inductionHypothesis =>
    rw [List.foldl_cons]
    have same : (objects.processExtension owner extension).other = objects.other ∧
        (objects.processExtension owner extension).hardforks = objects.hardforks := by
      cases extension <;> exact ⟨rfl, rfl⟩
    exact ⟨inductionHypothesis.1.trans same.1, inductionHypothesis.2.trans same.2⟩

/-- A vote for a hardfork leaves the version of the witness alone. -/
theorem processHeaderExtensions_hardforkVote (voting : Objects Other) (genesisTime : Nat) :
    ((objects.processHeaderExtensions owner (voting.hardforkVote genesisTime owner)).reportOf
      owner).runningVersion = (objects.reportOf owner).runningVersion := by
  rw [Objects.hardforkVote]
  dsimp only
  split
  · simp [Objects.processHeaderExtensions, Objects.processExtension, reportOf_modifyReport]
  · split
    · simp [Objects.processHeaderExtensions, Objects.processExtension, reportOf_modifyReport]
    · rfl

/-- A header reports the version of the node that has built it. -/
theorem reportExtensions_runningVersion (voting : Objects Other) (genesisTime : Nat)
    (same : objects.reportOf owner = voting.reportOf owner) :
    ((objects.processHeaderExtensions owner (voting.reportExtensions genesisTime owner)).reportOf
      owner).runningVersion = blockchainVersion := by
  rw [Objects.reportExtensions, processHeaderExtensions_append,
    processHeaderExtensions_hardforkVote, Objects.versionReport]
  by_cases current : (voting.reportOf owner).runningVersion = blockchainVersion
  · rw [if_neg (by simpa using current), ← current, ← same]
    rfl
  · rw [if_pos current]
    simp [Objects.processHeaderExtensions, Objects.processExtension, reportOf_modifyReport]

end Extensions

section Runs

variable [DecidableEq TxId] [DecidableEq Digest] [DecidableEq Key] [DecidableEq Id]
  {hashing : Hashing Id Tx (SignedHeader Digest Signature)} {skip : SkipFlags}
  {surroundings : Surroundings Id Tx TxId Key Digest Signature Other}
  {database : Database hashing (Body TxId Tx (Objects Other))}

/-- The pending session lies on the history, and only the other objects differ in it. -/
structure Layered (database : Database hashing (Body TxId Tx (Objects Other))) : Prop where
  opened : Database.PendingOpen database
  undisturbed : Undisturbed database.clearPending.store.current database.store.current

omit [DecidableEq TxId] [DecidableEq Digest] [DecidableEq Id] [DecidableEq Key] in
theorem layered_of_idle (idle : database.pendingSession = false) : Layered database := by
  constructor
  · intro session
    rw [idle] at session
    cases session
  · rw [Database.clearPending, Database.resetPendingSession, idle]
    exact .refl _

omit [DecidableEq Id] in
theorem Layered.pushPending (layered : Layered database) (transaction : Tx) :
    Layered (left (Database.pushPending (surroundings.sized.processing hashing skip) transaction
      database)) := by
  obtain ⟨settled, opened⟩ := Database.pushPending_settled transaction layered.opened
  constructor
  · exact opened
  · rw [settled, Database.pushPending_current]
    split
    · rename_i reached done
      exact layered.undisturbed.trans (applyTransaction_undisturbed done)
    · exact layered.undisturbed

theorem layered_pushBlock (block : Block Id Tx (SignedHeader Digest Signature))
    (database : Database hashing (Body TxId Tx (Objects Other))) :
    Layered (left (Database.pushBlock (surroundings.sized.processing hashing skip) block
      database)) := by
  rw [Database.left_pushBlock]
  have idle : (left (Database.pushUnprotected (surroundings.sized.processing hashing skip) block
      database.clearPending)).pendingSession = false :=
    Database.pushUnprotected_idle block (Database.clearPending_idle database)
  obtain ⟨settled, opened⟩ := @Database.finishPush_settled _ _ _ _ _
    (surroundings.sized.processing hashing skip) _ database.pendingTx idle
  constructor
  · exact opened
  · rw [settled, Database.finishPush_current]
    exact (pendingState_undisturbed _ _).trans (pendingState_undisturbed _ _)

variable {due : Nat} {owner : String} {key : Key} {plugin : WitnessPlugin Key}

theorem generateBlock_layered (layered : Layered database) :
    Layered (left (surroundings.producing.generateBlock due owner key database)) := by
  rw [Producing.generateBlock]
  cases assembles : surroundings.producing.assembleBlock due owner key database with
  | error thrown stopped =>
    rcases Producing.assembleBlock_error assembles with rfl | rfl
    · exact layered
    · exact layered_of_idle (Database.resetPendingSession_idle database)
  | ok block built =>
    have final := @layered_pushBlock _ _ _ _ _ _ _ _ _ _ _ hashing .nothing surroundings block built
    dsimp only
    cases pushed : Database.pushBlock (surroundings.sized.processing hashing .nothing) block
        built <;> rw [pushed] at final <;> exact final

theorem tryToProduce_layered (layered : Layered database) (tries : Nat) :
    Layered (surroundings.producing.tryToProduce due owner key tries database).2 := by
  induction tries generalizing database with
  | zero => exact layered
  | succ tries inductionHypothesis =>
    have tried := @generateBlock_layered _ _ _ _ _ _ _ _ _ _ _ hashing surroundings database due
      owner key layered
    rw [Producing.tryToProduce]
    cases outcome : surroundings.producing.generateBlock due owner key database with
    | ok block pushed =>
      rw [outcome] at tried
      exact tried
    | error thrown stopped =>
      exact inductionHypothesis (layered_of_idle (Database.clearPending_idle stopped))

/-- In every run of the node the pending session has changed only the other objects. -/
theorem run_layered (occurrences : List (Occurrence Id Tx (SignedHeader Digest Signature)))
    {node : Node hashing (Body TxId Tx (Objects Other))} (layered : Layered node.database) :
    Layered (surroundings.producing.run plugin occurrences node).database := by
  induction occurrences generalizing node with
  | nil => exact layered
  | cons occurrence rest inductionHypothesis =>
    rw [Producing.run]
    apply inductionHypothesis
    cases occurrence with
    | call skip call =>
      cases call with
      | pushBlock block => exact layered_pushBlock block node.database
      | pushTransaction transaction => exact layered.pushPending transaction
    | wakeUp first second =>
      rw [Producing.step]
      rcases Producing.blockProductionLoop_cases surroundings.producing plugin first second node with
        ⟨_, condition, enabled, _, outcome⟩ |
          ⟨owner, key, condition, reached, pushed, tried, outcome⟩
      · rw [outcome]
        exact layered
      · have kept := @tryToProduce_layered _ _ _ _ _ _ _ _ _ _ _ hashing surroundings node.database
          (roundedSecond second) owner key layered 2
        rw [tried] at kept
        rw [outcome]
        exact kept

end Runs

section Admission

/-- `_apply_block` up to the last transaction. -/
def admissionSteps [DecidableEq Id] (processing : Processing Id Tx H R) (block : Block Id Tx H) :
    List (Step (ChainState Id R) ChainError) :=
  coreStep (fun core =>
      if processing.merkleMatches block then .ok core else .error .merkleCheck) ::
    coreStep (checkPrevious block) ::
    bodyStep (processing.beginBlock block) ::
    block.transactions.map (fun transaction => bodyStep (processing.applyTransaction transaction))

variable [DecidableEq TxId] [DecidableEq Digest] [DecidableEq Key] [DecidableEq Id]
  {hashing : Hashing Id Tx (SignedHeader Digest Signature)}
  {surroundings : Surroundings Id Tx TxId Key Digest Signature Other} {due : Nat} {owner : String}
  {key : Key} {transactions : List Tx} {head final : ChainState Id (Body TxId Tx (Objects Other))}

/-- The checks of `_generate_block` before it builds a block, on the head. -/
structure Entitled (surroundings : Surroundings Id Tx TxId Key Digest Signature Other) (due : Nat)
    (owner : String) (key : Key) (head : ChainState Id (Body TxId Tx (Objects Other))) : Prop where
  slot : getSlotAtTime due head.core head.body.time ≠ 0
  scheduled : head.body.rest.getScheduledWitness
    (getSlotAtTime due head.core head.body.time) = owner
  signing : surroundings.signingKey head.body.rest.other owner = key

omit [DecidableEq TxId] [DecidableEq Id] in
/-- The header of a block that is built on the head passes when the block is not too big. -/
theorem Entitled.opens (entitled : Entitled surroundings due owner key head)
    (fits : head.body.time + blockInterval < secondsRange)
    (small : surroundings.blockSize
      (surroundings.producing.buildBlock due owner key transactions head) ≤
        head.body.rest.maximumBlockSize) :
    ∃ opened, (bodyStep (surroundings.sized.openBlock .nothing
        (surroundings.producing.buildBlock due owner key transactions head)) head).eval head =
          .ok () opened ∧ Alike head opened := by
  obtain ⟨slot, scheduled, signing⟩ := entitled
  have early : head.body.time < due := by
    by_contra late
    exact slot (getSlotAtTime_eq_zero (by omega) fits)
  set block := surroundings.producing.buildBlock due owner key transactions head
  set opened := ({ head.body.rest with currentWitness := owner } :
    Objects Other).processHeaderExtensions owner block.header.extensions
  have frame := @processHeaderExtensions_frame Other
    { head.body.rest with currentWitness := owner } owner block.header.extensions
  have version : opened.hardforks.currentHardforkVersion ≤
      (opened.reportOf owner).runningVersion := by
    have reported : (opened.reportOf owner).runningVersion = blockchainVersion :=
      reportExtensions_runningVersion head.body.rest surroundings.genesisTime rfl
    rw [reported]
    exact opened.hardforks.current_le
  refine ⟨{ head with body := { head.body with rest := opened } },
    openBlock_ok.mpr ⟨⟨early, ?_, ?_⟩, opened, ?_, rfl⟩, rfl, rfl, rfl, frame.1.symm⟩
  · exact require_ok_iff.mpr ((surroundings.signee_sign _ key).trans signing.symm)
  · apply bind_ok_iff.mpr
    refine ⟨(), require_ok_iff.mpr (Nat.pos_of_ne_zero slot), require_ok_iff.mpr ?_⟩
    exact scheduled.symm
  · apply eval_guarding.mpr
    refine ⟨require_ok_iff.mpr small, ?_⟩
    exact eval_guarding.mpr ⟨require_ok_iff.mpr version, rfl⟩

/-- A block of one's own that is not too big passes up to its last transaction. -/
theorem Entitled.admitted (entitled : Entitled surroundings due owner key head)
    (fits : head.body.time + blockInterval < secondsRange)
    (small : surroundings.blockSize
      (surroundings.producing.buildBlock due owner key transactions head) ≤
        head.body.rest.maximumBlockSize)
    (applies : evalAll (transactionSteps surroundings.sized hashing transactions) head =
      .ok () final) :
    ∃ applied, evalAll (admissionSteps (surroundings.sized.processing hashing .nothing)
        (surroundings.producing.buildBlock due owner key transactions head)) head =
          .ok () applied ∧ Alike final applied := by
  obtain ⟨opened, opens, alike⟩ := entitled.opens fits small
  obtain ⟨applied, again, same⟩ := alike.transactionSteps applies
  refine ⟨applied, ?_, same⟩
  rw [admissionSteps, evalAll_cons_ok]
  refine ⟨head, eval_coreStep_ok.mpr ⟨head.core, ?_, rfl⟩, ?_⟩
  · rw [if_pos]
    simp [Evaluators.processing, Surroundings.sized, Producing.buildBlock, Surroundings.producing,
      Surroundings.signHeader]
  · rw [evalAll_cons_ok]
    refine ⟨head, eval_coreStep_ok.mpr ⟨head.core, if_pos rfl, rfl⟩, ?_⟩
    exact evalAll_cons_ok.mpr ⟨opened, opens, again⟩

end Admission

namespace Database

variable [DecidableEq Id] {hashing : Hashing Id Tx H} {processing : Processing Id Tx H R}
  {block : Block Id Tx H} {database reached : Database hashing R}

/-- `_apply_block` after the last transaction. -/
def concludeBlock (processing : Processing Id Tx H R) (block : Block Id Tx H)
    (database : Database hashing R) : Snapshots.Outcome ChainError (Database hashing R) :=
  andThen (runSteps (bodyStep (processing.updateGlobalDynamicData block) ::
      headSteps hashing processing block) database)
    (fun headed => andThen headed.settleIrreversible
      (runSteps (finishSteps hashing processing block)))

/-- The database in the session of a block that is on top of a fork database and whose
transactions have led to a state. -/
def carrying (forkDb : ForkDatabase Id Tx H) (state : ChainState Id R)
    (database : Database hashing R) : Database hashing R :=
  { database with
    forkDb := forkDb.pin forkDb.head.toList
    store := database.store.start.put state }

omit [DecidableEq Id] in
theorem runSteps_open (steps : List (Step (ChainState Id R) ChainError))
    (opened : database.store.saved ≠ []) :
    runSteps steps database =
      outcomeMap (fun state => { database with store := database.store.put state })
        (evalAll steps database.store.current) := by
  rw [runSteps, runAll_open steps database.store opened]
  cases evalAll steps database.store.current <;> rfl

/-- A block applies when it is admitted and what follows runs through. -/
theorem tryBlock_of_admitted {applied : ChainState Id R} {forkDb : ForkDatabase Id Tx H}
    (admitted : evalAll (admissionSteps processing block) database.store.current = .ok () applied)
    (concluded : concludeBlock processing block (database.carrying forkDb applied) =
      .ok () reached) :
    tryBlock processing block { database with forkDb := forkDb.pin forkDb.head.toList } =
      .ok () reached := by
  have steps : openingSteps processing block ++ headSteps hashing processing block =
      admissionSteps processing block ++
        (bodyStep (processing.updateGlobalDynamicData block) ::
          headSteps hashing processing block) := by
    simp [openingSteps, admissionSteps]
  rw [concludeBlock, runSteps_open _ (by simp [carrying])] at concluded
  rw [tryBlock, applyBlock, steps, runSteps_open _ (by simp), UndoStore.start_current,
    evalAll_append, admitted]
  dsimp only [carrying, UndoStore.put_current, andThen] at concluded ⊢
  cases headed : evalAll (bodyStep (processing.updateGlobalDynamicData block) ::
      headSteps hashing processing block) applied with
  | error thrown stopped =>
    rw [headed] at concluded
    cases concluded
  | ok _ middle =>
    rw [headed] at concluded
    simp only [outcomeMap, UndoStore.put_put] at concluded ⊢
    rw [concluded]

/-- The head of the fork database, if there is one, is the head of the chain and can be
found. -/
def Attached (database : Database hashing R) : Prop :=
  ∀ head, database.forkDb.head = some head →
    hashing.id head.block = database.core.headBlockId ∧
      ∃ item, database.forkDb.fetchBlock hashing database.core.headBlockId = some item

/-- A block on an attached head becomes the head of the fork database. -/
theorem Attached.pushBlock (attached : Attached database)
    (onHead : block.previous = database.core.headBlockId) :
    ∃ forkDb newHead, database.forkDb.pushBlock hashing block = .ok forkDb ∧
      forkDb.head = some newHead ∧ newHead.block = block := by
  rw [ForkDatabase.pushBlock]
  cases top : database.forkDb.head with
  | none =>
    refine ⟨_, ⟨database.forkDb.nextSerial, block, none⟩, rfl, ?_, rfl⟩
    simp only [ForkDatabase.insertItem, top]
  | some head =>
    obtain ⟨same, item, found⟩ := attached head top
    have number : hashing.num block = hashing.num head.block + 1 := by
      rw [Hashing.num, onHead, ← same, hashing.numFromId_id]
      rfl
    dsimp only
    rw [if_neg (by omega)]
    have inserted : ∀ prev, (database.forkDb.insertItem hashing
        ⟨database.forkDb.nextSerial, block, prev⟩).head =
          some ⟨database.forkDb.nextSerial, block, prev⟩ := by
      intro prev
      simp only [ForkDatabase.insertItem, top]
      rw [if_pos (by omega)]
    split
    · exact ⟨_, _, rfl, inserted none, rfl⟩
    · rw [onHead, found]
      exact ⟨_, _, rfl, inserted _, rfl⟩

/-- A block on an attached head is accepted when it is admitted and what follows runs
through. -/
theorem Attached.pushUnprotected (attached : Attached database)
    (onHead : block.previous = database.core.headBlockId) {applied : ChainState Id R}
    (admitted : evalAll (admissionSteps processing block) database.store.current = .ok () applied)
    (concludes : ∀ forkDb, database.forkDb.pushBlock hashing block = .ok forkDb →
      ∃ reached, concludeBlock processing block (database.carrying forkDb applied) =
        .ok () reached) :
    ∃ reached, pushUnprotected processing block database = .ok false reached := by
  obtain ⟨forkDb, newHead, pushed, top, same⟩ := attached.pushBlock onHead
  obtain ⟨reached, concluded⟩ := concludes forkDb pushed
  have tried := tryBlock_of_admitted admitted concluded
  refine ⟨reached, ?_⟩
  rw [top, Option.toList_some] at tried
  simp only [Database.pushUnprotected, pushed, top, same, onHead, ne_eq, not_true_eq_false,
    if_false, tried]

end Database

section Acceptance

variable [DecidableEq TxId] [DecidableEq Digest] [DecidableEq Key] [DecidableEq Id]
  {hashing : Hashing Id Tx (SignedHeader Digest Signature)}
  {surroundings : Surroundings Id Tx TxId Key Digest Signature Other} {due : Nat} {owner : String}
  {key : Key} {database built : Database hashing (Body TxId Tx (Objects Other))}
  {block : Block Id Tx (SignedHeader Digest Signature)}

/-- No selection of the pending transactions that the estimate lets pass makes a block that
is too big with the name of the witness, the extensions and the count. -/
def Covers (surroundings : Surroundings Id Tx TxId Key Digest Signature Other) (due : Nat)
    (owner : String) (pool : List Tx) (objects : Objects Other) : Prop :=
  ∀ taken : List Tx,
    taken.Sublist (surroundings.unexpiredFor due pool) →
    taken = [] ∨ maxBlockHeaderSize + (taken.map surroundings.packSize).sum <
      objects.maximumBlockSize →
    headerSize owner (objects.reportExtensions surroundings.genesisTime owner) +
        varintSize taken.length + (taken.map surroundings.packSize).sum ≤ objects.maximumBlockSize

/-- What it takes for a block of one's own to be accepted: the 32-bit seconds are not over,
no pending transaction has changed the key of the witness, the fork database is on the head,
the estimate covers the block, and what follows the transactions of a block runs through. -/
structure Ready (surroundings : Surroundings Id Tx TxId Key Digest Signature Other) (due : Nat)
    (owner : String) (key : Key) (database : Database hashing (Body TxId Tx (Objects Other))) :
    Prop where
  fits : database.headTime + blockInterval < secondsRange
  signing : surroundings.signingKey database.clearPending.store.current.body.rest.other owner = key
  attached : database.clearPending.Attached
  covers : Covers surroundings due owner database.pendingTx database.store.current.body.rest
  concludes : ∀ taken forkDb applied,
    taken.Sublist (surroundings.unexpiredFor due database.pendingTx) →
    let block := surroundings.producing.buildBlock due owner key taken
      database.clearPending.store.current
    database.clearPending.forkDb.pushBlock hashing block = .ok forkDb →
    evalAll (admissionSteps (surroundings.sized.processing hashing .nothing) block)
      database.clearPending.store.current = .ok () applied →
    ∃ reached, Database.concludeBlock (surroundings.sized.processing hashing .nothing) block
      (database.clearPending.carrying forkDb applied) = .ok () reached

/-- A block of one's own, on any database whose pending session has changed only the other
objects. -/
theorem Layered.accepts (layered : Layered database)
    (assembled : surroundings.producing.assembleBlock due owner key database = .ok block built)
    (ready : Ready surroundings due owner key database) :
    surroundings.blockSize block ≤ built.store.current.body.rest.maximumBlockSize ∧
      (∃ applied, evalAll (admissionSteps (surroundings.sized.processing hashing .nothing) block)
        built.store.current = .ok () applied) ∧
      ∃ pushed, surroundings.producing.generateBlock due owner key database =
        .ok block pushed := by
  obtain ⟨rfl, slot, scheduled, included, ⟨final, listed, below, applies⟩, rfl⟩ :=
    Producing.assembleBlock_parts assembled
  obtain ⟨fits, signing, attached, covers, concludes⟩ := ready
  obtain ⟨_, core, time, objects⟩ := layered
  -- the checks before the block look at the pending session, the push at the head below it
  rw [core, time] at slot scheduled
  rw [objects] at scheduled below covers
  have small := covers included listed below
  have entitled : Entitled surroundings due owner key database.clearPending.store.current :=
    ⟨slot, scheduled, signing⟩
  obtain ⟨applied, admitted, _⟩ := entitled.admitted (by rw [← time]; exact fits) small applies
  obtain ⟨pushed, accepted⟩ := attached.pushUnprotected rfl admitted
    (fun forkDb placed =>
      concludes included forkDb applied listed placed admitted)
  refine ⟨small, ⟨applied, admitted⟩, ?_⟩
  rw [Producing.generateBlock, assembled]
  dsimp only
  rw [Database.pushBlock, Producing.resetPendingSession_clear, accepted]
  exact ⟨_, rfl⟩

/-- In every run of the node, whatever is pending: a block that `_generate_block` builds is
not too big, its transactions apply again, and `push_block` accepts it. -/
theorem generateBlock_accepted (hashing : Hashing Id Tx (SignedHeader Digest Signature))
    (surroundings : Surroundings Id Tx TxId Key Digest Signature Other) (plugin : WitnessPlugin Key)
    (productionEnabled : Bool) (time : Nat) (objects : Objects Other)
    (occurrences : List (Occurrence Id Tx (SignedHeader Digest Signature)))
    (due : Nat) (owner : String) (key : Key) (block : Block Id Tx (SignedHeader Digest Signature))
    (database built : Database hashing (Body TxId Tx (Objects Other)))
    (reached : (surroundings.producing.run plugin occurrences
      (Node.genesis hashing productionEnabled time objects)).database = database)
    (assembled : surroundings.producing.assembleBlock due owner key database = .ok block built)
    (ready : Ready surroundings due owner key database) :
    surroundings.blockSize block ≤ built.store.current.body.rest.maximumBlockSize ∧
      (∃ applied, evalAll (admissionSteps (surroundings.sized.processing hashing .nothing) block)
        built.store.current = .ok () applied) ∧
      ∃ pushed, surroundings.producing.generateBlock due owner key database =
        .ok block pushed := by
  have layered : Layered database := by
    rw [← reached]
    exact run_layered occurrences (layered_of_idle rfl)
  exact layered.accepts assembled ready

variable {pool : List Tx} {objects : Objects Other}

omit [DecidableEq TxId] [DecidableEq Digest] [DecidableEq Key] [DecidableEq Id] in
/-- The estimate covers every block when the name, the extensions and the count need at most
what it leaves for them. -/
theorem covers_of_room
    (room : headerSize owner (objects.reportExtensions surroundings.genesisTime owner) +
      varintSize pool.length ≤ maxBlockHeaderSize + 1)
    (bare : headerSize owner (objects.reportExtensions surroundings.genesisTime owner) + 1 ≤
      objects.maximumBlockSize) : Covers surroundings due owner pool objects := by
  rintro taken listed (rfl | below)
  · exact bare
  · have fewer := varintSize_mono (listed.trans List.filter_sublist).length_le
    omega

omit [DecidableEq TxId] [DecidableEq Digest] [DecidableEq Key] [DecidableEq Id] in
/-- Nothing is too big when a block with all pending transactions is not. -/
theorem covers_of_pool
    (fits : headerSize owner (objects.reportExtensions surroundings.genesisTime owner) +
      varintSize pool.length + (pool.map surroundings.packSize).sum ≤ objects.maximumBlockSize) :
    Covers surroundings due owner pool objects := by
  intro taken listed _
  have sublist := listed.trans List.filter_sublist
  have fewer := varintSize_mono sublist.length_le
  have smaller := (sublist.map surroundings.packSize).sum_le_sum (fun _ _ => Nat.zero_le _)
  omega

end Acceptance

/-!
## A chain of one witness

A transaction is known by its packed size, and the other objects count what has been
applied. The hash of some transactions is the sum of their sizes, and a key signs with itself.
-/

namespace LoneWitness

/-- A chain without processes. -/
def surroundings : Surroundings (List (Entry Nat (SignedHeader Nat String))) Nat Nat String Nat
    String Nat where
  evaluators := {
    trxId := id
    trxId_injective := Function.injective_id
    expiration _ := 3600
    refBlockNum _ := 0
    refBlockPrefix _ := 0
    idPrefix _ := 0
    timestamp := SignedHeader.timestamp
    merkleMatches _ := true
    validateSignee _ _ _ _ := .ok ()
    scheduledWitness _ _ _ _ := .ok ()
    beginBlock _ _ _ _ := .done
    validate _ := .ok ()
    verifyAuthority _ _ _ _ := .ok ()
    operations _ _ _ _ := .done
    updateSlots block core time objects :=
      .write { objects with
        currentAslot := objects.currentAslot + getSlotAtTime block.header.timestamp core time } .done
    updateSigningWitness _ _ _ _ := .done
    currentShuffledWitnesses := Objects.currentShuffledWitnesses
    clearExpiredRecentEntities _ _ _ _ := .done
    clearExpiredProposals _ _ _ := .done
    clearExpiredDisciplineSupplies _ _ _ := .done
    updateWitnessSchedule _ _ _ := .done
    processResearchTokenSales _ _ _ := .done
    processFunds _ _ _ := .done
    processCommonTokensWithdrawals _ _ _ := .done
    processAccountRecovery _ _ _ := .done
    processHardforks _ _ _ := .done
    processDisciplineSupplies _ _ _ := .done
    processExpertiseAllocationProposals _ _ _ := .done
    processNdaContracts _ _ _ := .done
    notifyAppliedBlock _ _ _ _ := .done }
  packSize := id
  calculateMerkleRoot := List.sum
  sign key _ := key
  signee _ signature := signature
  signee_sign _ _ := rfl
  signingKey _ owner := owner
  witnessParticipationRate _ := hundredPercent
  verifyAuthority _ _ _ _ := .ok ()
  operations _ _ _ applied := .write (applied + 1) .done
  genesisTime := 0

/-- The objects after a genesis with the least `maximum_block_size` that a witness may set. -/
def objects : Objects Nat :=
  { currentWitness := ""
    maximumBlockSize := 65536
    currentAslot := 0
    currentShuffledWitnesses := ["alice"]
    reported := ∅
    hardforks := ⟨0, Nat.zero_le _⟩
    other := 0 }

/-- The database of a node on which transactions have been pushed. -/
def pooled (sizes : List Nat) : Database (Hashing.spelled Nat (SignedHeader Nat String))
    (Body Nat Nat (Objects Nat)) :=
  (surroundings.producing.run ⟨[], [], 0, 0⟩
    (sizes.map (fun transaction => .call .nothing (.pushTransaction transaction)))
    (Node.genesis (Hashing.spelled _ _) false 0 objects)).database

/-- The block that alice builds for the first slot. -/
def built (sizes : List Nat) :=
  match surroundings.producing.assembleBlock 3 "alice" "alice" (pooled sizes) with
  | .ok block _ => some block
  | .error _ _ => none

/-- Two transactions fill the block up to the estimate. The name of the witness and what it
reports make it too big, and the node refuses the block it has built. -/
theorem full_block_refused :
    (built [40000, 25420]).map surroundings.blockSize = some 65551 ∧
      (pooled [40000, 25420]).store.current.body.rest.maximumBlockSize = 65536 ∧
      thrownBy (surroundings.producing.generateBlock 3 "alice" "alice"
        (pooled [40000, 25420])) = some (.rejected "Block Size is too Big") := by
  decide +kernel

/-- The push of the block with some transactions does not end in an exception after them. -/
def concluded (sizes taken : List Nat) : Bool :=
  let database := (pooled sizes).clearPending
  let processing := surroundings.sized.processing (Hashing.spelled _ _) .nothing
  let block := surroundings.producing.buildBlock 3 "alice" "alice" taken database.store.current
  match database.forkDb.pushBlock (Hashing.spelled _ _) block with
  | .error _ => true
  | .ok forkDb =>
    match evalAll (admissionSteps processing block) database.store.current with
    | .error _ _ => true
    | .ok _ applied =>
      (thrownBy (Database.concludeBlock processing block (database.carrying forkDb applied))).isNone

theorem small_block_ready :
    Ready surroundings 3 "alice" "alice" (pooled [500]) := by
  constructor
  · decide +kernel
  · rfl
  · intro head top
    have empty : (pooled [500]).clearPending.forkDb.head.isNone = true := by decide +kernel
    rw [top] at empty
    cases empty
  · apply covers_of_pool
    decide +kernel
  · intro taken forkDb applied listed block placed admitted
    have pool : surroundings.unexpiredFor 3 (pooled [500]).pendingTx = [500] := by decide +kernel
    have every : ∀ taken ∈ [[], [500]], concluded [500] taken = true := by decide +kernel
    rw [pool] at listed
    have passed := every taken (by simpa using List.sublist_singleton.mp listed)
    rw [concluded, placed] at passed
    dsimp only at passed
    rw [admitted] at passed
    change (thrownBy (Database.concludeBlock
      (surroundings.sized.processing (Hashing.spelled _ _) .nothing) block
      ((pooled [500]).clearPending.carrying forkDb applied))).isNone = true at passed
    cases result : Database.concludeBlock
        (surroundings.sized.processing (Hashing.spelled _ _) .nothing) block
        ((pooled [500]).clearPending.carrying forkDb applied) with
    | ok _ reached => exact ⟨reached, rfl⟩
    | error thrown stopped =>
      rw [result] at passed
      cases passed

/-- A block with room to spare is accepted. -/
theorem small_block_accepted : ∃ block pushed,
    surroundings.producing.generateBlock 3 "alice" "alice" (pooled [500]) = .ok block pushed ∧
      surroundings.blockSize block ≤ 65536 := by
  have builds : (built [500]).isSome = true := by decide +kernel
  rw [built] at builds
  cases assembled : surroundings.producing.assembleBlock 3 "alice" "alice" (pooled [500]) with
  | error thrown stopped =>
    rw [assembled] at builds
    cases builds
  | ok block after =>
    obtain ⟨small, _, pushed, accepted⟩ := generateBlock_accepted (Hashing.spelled _ _) surroundings
      ⟨[], [], 0, 0⟩ false 0 objects [.call .nothing (.pushTransaction 500)] 3 "alice" "alice" block
      (pooled [500]) after rfl assembled small_block_ready
    refine ⟨block, pushed, accepted, small.trans (Nat.le_of_eq ?_)⟩
    rw [(Producing.assembleBlock_ok assembled).2.1]
    decide +kernel

end LoneWitness

end DeipChain.Chain
