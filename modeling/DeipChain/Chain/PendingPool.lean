import DeipChain.Chain.ProductionRuns

/-!
# The pool of pending transactions

`push_transaction` keeps a list of pending transactions and a session in which they have
been applied. `push_block` takes both down and puts them up again on the head it leaves.
`_generate_block` takes the session down and leaves the list, fills a block from it, and
relies on `push_block` for the rest; an exception before that push leaves the list without
its session.

`Pooled` is the relation between the list and the session, and `Takes` what the loop that
fills a block has taken.
-/
namespace DeipChain.Chain

open Snapshots

variable {Id Tx H TxId Rest Key : Type} {hashing : Hashing Id Tx H}

section Loop

variable [DecidableEq TxId] {evaluators : Evaluators Id Tx H TxId Rest}

/-- The transactions of a block one after the other. -/
def transactionSteps (evaluators : Evaluators Id Tx H TxId Rest) (hashing : Hashing Id Tx H)
    (transactions : List Tx) : List (Step (ChainState Id (Body TxId Tx Rest)) ChainError) :=
  transactions.map (fun transaction =>
    bodyStep (evaluators.applyTransaction hashing .nothing transaction))

/-- What a loop over pending transactions has taken, counting from a size, and the store it
has left: the transactions have not expired, stay below the maximum, and apply in turn. -/
structure Producing.Takes (producing : Producing evaluators Key) (hashing : Hashing Id Tx H)
    (due maximum size : Nat) (pool : List Tx) (store : UndoStore (ChainState Id (Body TxId Tx Rest)))
    (result : List Tx × UndoStore (ChainState Id (Body TxId Tx Rest))) : Prop where
  listed : result.1.Sublist
    (pool.filter (fun transaction => due ≤ evaluators.expiration transaction))
  below : result.1 = [] ∨ size + (result.1.map producing.packSize).sum < maximum
  applies : evalAll (transactionSteps evaluators hashing result.1) store.current =
    .ok () result.2.current

theorem Producing.includePending_takes (producing : Producing evaluators Key)
    (hashing : Hashing Id Tx H) (due maximum size : Nat) (pool : List Tx)
    (store : UndoStore (ChainState Id (Body TxId Tx Rest))) (opened : store.saved ≠ []) :
    producing.Takes hashing due maximum size pool store
      (producing.includePending hashing due maximum size pool store) := by
  induction pool generalizing size store with
  | nil => exact ⟨List.Sublist.refl _, .inl rfl, rfl⟩
  | cons transaction rest inductionHypothesis =>
    have passed : producing.Takes hashing due maximum size (transaction :: rest) store
        (producing.includePending hashing due maximum size rest store) := by
      obtain ⟨listed, below, applies⟩ := inductionHypothesis size store opened
      exact ⟨listed.trans ((List.sublist_cons_self _ _).filter _), below, applies⟩
    rw [includePending]
    split
    · exact passed
    · rename_i timely
      split
      · exact passed
      · rename_i fits
        dsimp only
        rw [Script.run_open _ _ (by simp)]
        cases tried : (bodyStep (evaluators.applyTransaction hashing .nothing transaction)
            store.current).eval store.start.current with
        | ok _ state =>
          simp only [outcomeMap, UndoStore.squash_put_start opened]
          obtain ⟨listed, below, applies⟩ := inductionHypothesis
            (size + producing.packSize transaction) (store.put state) (by exact opened)
          constructor
          · rw [List.filter_cons, if_pos (by simpa using timely)]
            exact listed.cons_cons transaction
          · right
            rw [List.map_cons, List.sum_cons]
            rcases below with none | below
            · rw [none]
              simpa using fits
            · omega
          · exact evalAll_cons_ok.mpr ⟨state, tried, applies⟩
        | error thrown state =>
          simp only [outcomeMap, UndoStore.undo_put_start]
          exact passed

end Loop

section Assembly

variable [DecidableEq TxId] [DecidableEq Key] {evaluators : Evaluators Id Tx H TxId Rest}
  {producing : Producing evaluators Key} {due : Nat} {owner : String} {key : Key}
  {block : Block Id Tx H} {database built reached : Database hashing (Body TxId Tx Rest)}

/-- What the loop of `_generate_block` takes of the pending transactions of a database. -/
def Producing.Fills (producing : Producing evaluators Key) (due : Nat)
    (database : Database hashing (Body TxId Tx Rest)) (included : List Tx) : Prop :=
  ∃ final, producing.Takes hashing due
    (producing.maximumBlockSize database.store.current.body.rest) producing.maxBlockHeaderSize
    database.pendingTx database.clearPending.store.start (included, final)

/-- The block is built on the head below the pending session, and its size is checked with
the session gone. -/
theorem Producing.assembleBlock_fills (producing : Producing evaluators Key) (due : Nat)
    (owner : String) (key : Key) (database : Database hashing (Body TxId Tx Rest)) :
    ∃ included, producing.Fills due database included ∧
      producing.assembleBlock due owner key database =
        let state := database.store.current
        let slot := getSlotAtTime due state.core state.body.time
        let block := producing.buildBlock due owner key included database.clearPending.store.current
        if slot = 0 then .error (.rejected "slot_num > 0") database
        else if producing.getScheduledWitness slot state.body.rest ≠ owner then
          .error (.rejected "scheduled_witness == witness_owner") database
        else if producing.signingKey state.body.rest owner ≠ key then
          .error
            (.rejected "witness_obj.signing_key == block_signing_private_key.get_public_key()")
            database
        else if producing.blockSize block > maxBlockSize then
          .error (.rejected "fc::raw::pack_size(pending_block) <= DEIP_MAX_BLOCK_SIZE")
            database.resetPendingSession
        else .ok block database.resetPendingSession := by
  have pool : database.resetPendingSession.pendingTx = database.pendingTx := by
    rw [Database.resetPendingSession]
    split <;> rfl
  have restored := producing.includePending_undo hashing due
    (producing.maximumBlockSize database.store.current.body.rest) producing.maxBlockHeaderSize
    database.pendingTx database.resetPendingSession.store.start (by simp)
  have takes := producing.includePending_takes hashing due
    (producing.maximumBlockSize database.store.current.body.rest) producing.maxBlockHeaderSize
    database.pendingTx database.resetPendingSession.store.start (by simp)
  rw [UndoStore.undo_start] at restored
  refine ⟨_, ⟨_, takes⟩, ?_⟩
  rw [Producing.assembleBlock]
  simp only [pool, restored]
  have same : { database.resetPendingSession with pendingTx := database.pendingTx } =
      database.resetPendingSession := by
    rw [← pool]
  rw [same]
  rfl

/-- What is known of a block that has been built. -/
theorem Producing.assembleBlock_parts
    (done : producing.assembleBlock due owner key database = .ok block built) :
    let state := database.store.current
    let slot := getSlotAtTime due state.core state.body.time
    built = database.resetPendingSession ∧ slot ≠ 0 ∧
      producing.getScheduledWitness slot state.body.rest = owner ∧
      ∃ included, producing.Fills due database included ∧
        block = producing.buildBlock due owner key included database.clearPending.store.current := by
  obtain ⟨included, fills, assembles⟩ := producing.assembleBlock_fills due owner key database
  rw [assembles] at done
  dsimp only at done
  split at done
  · cases done
  · rename_i slot
    split at done
    · cases done
    · rename_i scheduled
      split at done
      · cases done
      · split at done
        · cases done
        · cases done
          exact ⟨rfl, slot, not_not.mp scheduled, included, fills, rfl⟩

/-- Without a block nothing has happened, or the session is gone and the block is beyond
`DEIP_MAX_BLOCK_SIZE`. -/
theorem Producing.assembleBlock_stops {thrown : ChainError}
    (failed : producing.assembleBlock due owner key database = .error thrown reached) :
    reached = database ∨ reached = database.resetPendingSession ∧
      ∃ included, producing.Fills due database included ∧ maxBlockSize < producing.blockSize
        (producing.buildBlock due owner key included database.clearPending.store.current) := by
  obtain ⟨included, fills, assembles⟩ := producing.assembleBlock_fills due owner key database
  rw [assembles] at failed
  dsimp only at failed
  split at failed
  · cases failed
    exact .inl rfl
  · split at failed
    · cases failed
      exact .inl rfl
    · split at failed
      · cases failed
        exact .inl rfl
      · split at failed
        · rename_i big
          cases failed
          exact .inr ⟨rfl, included, fills, big⟩
        · cases failed

end Assembly

section Pool

variable [DecidableEq TxId] {evaluators : Evaluators Id Tx H TxId Rest} {transaction : Tx}
  {database : Database hashing (Body TxId Tx Rest)}

/-- The visible state is the one below the pending session with the pending transactions
applied in turn, and the session is open when there are any. -/
structure Pooled (evaluators : Evaluators Id Tx H TxId Rest)
    (database : Database hashing (Body TxId Tx Rest)) : Prop where
  opened : Database.PendingOpen database
  applies : evalAll (transactionSteps evaluators hashing database.pendingTx)
    database.clearPending.store.current = .ok () database.store.current
  session : database.pendingTx ≠ [] → database.pendingSession = true

omit [DecidableEq TxId] in
theorem clearPending_of_idle (idle : database.pendingSession = false) :
    database.clearPending.store = database.store := by
  simp [Database.clearPending, Database.resetPendingSession, idle]

/-- Without pending transactions and a session there is nothing to relate. -/
theorem pooled_of_idle (idle : database.pendingSession = false) (empty : database.pendingTx = []) :
    Pooled evaluators database where
  opened session := by
    rw [idle] at session
    cases session
  applies := by
    rw [empty, clearPending_of_idle idle]
    rfl
  session some := absurd empty some

/-- The list and the session after `push_transaction`. -/
theorem pushPending_pool {R : Type} (processing : Processing Id Tx H R) (transaction : Tx)
    (database : Database hashing R) :
    (left (Database.pushPending processing transaction database)).pendingSession = true ∧
      (left (Database.pushPending processing transaction database)).pendingTx =
        match (bodyStep (processing.applyTransaction transaction) database.store.current).eval
            database.store.current with
        | .ok _ _ => database.pendingTx ++ [transaction]
        | .error _ _ => database.pendingTx := by
  have session : database.openPending.pendingSession = true := by
    rw [Database.openPending]
    split
    · assumption
    · rfl
  have pool : database.openPending.pendingTx = database.pendingTx := by
    rw [Database.openPending]
    split <;> rfl
  rw [Database.pushPending, Script.run_open _ _ (by simp), UndoStore.start_current, Database.openPending_current]
  cases (bodyStep (processing.applyTransaction transaction) database.store.current).eval
      database.store.current with
  | ok _ reached => exact ⟨session, congrArg (· ++ [transaction]) pool⟩
  | error thrown reached => exact ⟨session, pool⟩

/-- `push_transaction`, whether it returns or throws. -/
theorem Pooled.pushPending (pooled : Pooled evaluators database) (transaction : Tx) :
    Pooled evaluators (left (Database.pushPending (evaluators.processing hashing .nothing)
      transaction database)) := by
  obtain ⟨opened, applies, _⟩ := pooled
  obtain ⟨settled, stacked⟩ := @Database.pushPending_settled _ _ _ _ _
    (evaluators.processing hashing .nothing) database transaction opened
  obtain ⟨session, pool⟩ := pushPending_pool (evaluators.processing hashing .nothing) transaction
    database
  refine ⟨stacked, ?_, fun _ => session⟩
  rw [settled, pool, Database.pushPending_current]
  cases applied : (bodyStep ((evaluators.processing hashing .nothing).applyTransaction transaction)
      database.store.current).eval database.store.current with
  | ok _ reached =>
    dsimp only
    rw [transactionSteps, List.map_append, evalAll_append_ok]
    exact ⟨_, applies, evalAll_cons_ok.mpr ⟨reached, applied, rfl⟩⟩
  | error thrown reached => exact applies

theorem Pooled.restorePending (pooled : Pooled evaluators database) (transactions : List Tx) :
    Pooled evaluators (Database.restorePending (evaluators.processing hashing .nothing)
      transactions database) := by
  induction transactions generalizing database with
  | nil => exact pooled
  | cons transaction rest inductionHypothesis =>
    rw [Database.restorePending]
    split
    · exact inductionHypothesis pooled
    · exact inductionHypothesis (pooled.pushPending transaction)

/-- The end of a push makes a new pool on what the push leaves. -/
theorem pooled_finishPush (pending : List Tx) (idle : database.pendingSession = false)
    (empty : database.pendingTx = []) :
    Pooled evaluators (Database.finishPush (evaluators.processing hashing .nothing) pending
      database) := by
  rw [Database.finishPush]
  apply Pooled.restorePending
  have popped : Pooled evaluators (Database.restorePending (evaluators.processing hashing .nothing)
      database.poppedTx { database with forkDb := database.forkDb.pin [] }) := by
    apply Pooled.restorePending
    exact pooled_of_idle idle empty
  obtain ⟨opened, applies, session⟩ := popped
  refine ⟨opened, ?_, session⟩
  rw [Database.clearPending_store_poppedTx]
  exact applies

variable [DecidableEq Id]

omit [DecidableEq TxId] in
/-- A push of a block leaves the empty pool it starts with alone. -/
theorem pushUnprotected_pool {R : Type} {processing : Processing Id Tx H R}
    {database : Database hashing R} (block : Block Id Tx H)
    (idle : database.pendingSession = false) (empty : database.pendingTx = []) :
    (left (Database.pushUnprotected processing block database)).pendingSession = false ∧
      (left (Database.pushUnprotected processing block database)).pendingTx = [] := by
  have keeps : Database.PushKeeps processing (fun database : Database hashing R =>
      database.pendingSession = false ∧ database.pendingTx = []) := by
    constructor
    · exact fun _ _ kept => kept
    · intro block database kept
      obtain ⟨session, pool, _⟩ := Database.tryBlock_frame processing block database
      exact ⟨session.trans kept.1, pool.trans kept.2⟩
    · intro database kept
      have reset : database.resetPendingSession = database := by
        simp [Database.resetPendingSession, kept.1]
      rw [Database.popBlock, reset]
      split
      · exact kept
      · split <;> exact kept
  exact keeps.pushUnprotected block ⟨idle, empty⟩

/-- `push_block`, whether it returns or throws, from any database. -/
theorem pooled_pushBlock (evaluators : Evaluators Id Tx H TxId Rest) (block : Block Id Tx H)
    (database : Database hashing (Body TxId Tx Rest)) :
    Pooled evaluators (left (Database.pushBlock (evaluators.processing hashing .nothing) block
      database)) := by
  obtain ⟨idle, empty⟩ := @pushUnprotected_pool _ _ _ hashing _ _
    (evaluators.processing hashing .nothing) database.clearPending block
    (Database.clearPending_idle database) rfl
  rw [Database.left_pushBlock]
  exact pooled_finishPush database.pendingTx idle empty

end Pool

/-- A call of `push_block`, `push_transaction` or `generate_block`. -/
inductive PoolCall (Id Tx H Key : Type) where
  | pushBlock (block : Block Id Tx H)
  | pushTransaction (transaction : Tx)
  | generateBlock (due : Nat) (owner : String) (key : Key)

namespace Producing

variable [DecidableEq TxId] [DecidableEq Id] [DecidableEq Key]
  {evaluators : Evaluators Id Tx H TxId Rest} (producing : Producing evaluators Key)

/-- The database after a call, whether it returns or throws. -/
def afterPoolCall : PoolCall Id Tx H Key → Database hashing (Body TxId Tx Rest) →
    Database hashing (Body TxId Tx Rest)
  | .pushBlock block, database =>
    left (Database.pushBlock (evaluators.processing hashing .nothing) block database)
  | .pushTransaction transaction, database =>
    left (Database.pushPending (evaluators.processing hashing .nothing) transaction database)
  | .generateBlock due owner key, database =>
    left (producing.generateBlock due owner key database)

/-- The database after a sequence of calls. -/
def afterPoolCalls : List (PoolCall Id Tx H Key) → Database hashing (Body TxId Tx Rest) →
    Database hashing (Body TxId Tx Rest)
  | [], database => database
  | call :: rest, database => afterPoolCalls rest (producing.afterPoolCall call database)

/-- A selection of the pending transactions that the estimate of `_generate_block` lets
pass. -/
def Selectable (due : Nat) (database : Database hashing (Body TxId Tx Rest)) (taken : List Tx) :
    Prop :=
  taken.Sublist (database.pendingTx.filter (fun transaction =>
      due ≤ evaluators.expiration transaction)) ∧
    (taken = [] ∨ producing.maxBlockHeaderSize + (taken.map producing.packSize).sum <
      producing.maximumBlockSize database.store.current.body.rest)

/-- A call that keeps the pool and what is committed: every block that is pushed is pushed
in an orderly way, and no block that can be built is beyond `DEIP_MAX_BLOCK_SIZE`. -/
def Settled : PoolCall Id Tx H Key → Database hashing (Body TxId Tx Rest) → Prop
  | .pushBlock block, database =>
    Database.orderly (evaluators.processing hashing .nothing) block database.clearPending = true
  | .pushTransaction _, _ => True
  | .generateBlock due owner key, database =>
    ∀ taken, producing.Selectable due database taken →
      let block := producing.buildBlock due owner key taken database.clearPending.store.current
      producing.blockSize block ≤ maxBlockSize ∧
        Database.orderly (evaluators.processing hashing .nothing) block database.clearPending = true

/-- Every call of a run is settled where it is made. -/
def SettledRun : List (PoolCall Id Tx H Key) → Database hashing (Body TxId Tx Rest) → Prop
  | [], _ => True
  | call :: rest, database =>
    producing.Settled call database ∧ SettledRun rest (producing.afterPoolCall call database)

variable {producing} {due : Nat} {owner : String} {key : Key} {call : PoolCall Id Tx H Key}
  {database : Database hashing (Body TxId Tx Rest)} {genesis : Body TxId Tx Rest}

omit [DecidableEq Id] [DecidableEq Key] in
theorem Fills.selectable {included : List Tx} (fills : producing.Fills due database included) :
    producing.Selectable due database included := by
  obtain ⟨_, listed, below, _⟩ := fills
  exact ⟨listed, below⟩

omit [DecidableEq TxId] [DecidableEq Id] [DecidableEq Key] in
/-- A reset pending session is what a push starts from. -/
theorem resetPendingSession_clear {R : Type} (database : Database hashing R) :
    database.resetPendingSession.clearPending = database.clearPending := by
  rw [Database.clearPending, Database.resetPendingSession.eq_def database.resetPendingSession,
    if_neg (by simp [Database.resetPendingSession_idle database])]
  rfl

/-- A settled call keeps the relation between the pending list and the session. -/
theorem Settled.pooled (settled : producing.Settled call database)
    (pooled : Pooled evaluators database) :
    Pooled evaluators (producing.afterPoolCall call database) := by
  cases call with
  | pushBlock block => exact pooled_pushBlock evaluators block database
  | pushTransaction transaction => exact pooled.pushPending transaction
  | generateBlock due owner key =>
    rw [afterPoolCall, Producing.generateBlock]
    cases assembles : producing.assembleBlock due owner key database with
    | error thrown stopped =>
      rcases assembleBlock_stops assembles with rfl | ⟨_, included, fills, big⟩
      · exact pooled
      · exact absurd (settled included fills.selectable).1 (Nat.not_le.mpr big)
    | ok block built =>
      have final := pooled_pushBlock evaluators block built
      dsimp only
      cases pushed : Database.pushBlock (evaluators.processing hashing .nothing) block built <;>
        rw [pushed] at final <;> exact final

/-- A settled call keeps the store below the pending session steady. -/
theorem Settled.steady (settled : producing.Settled call database)
    (steady : Database.Steady (evaluators.processing hashing .nothing) genesis database.clearPending)
    (pooled : Pooled evaluators database) :
    Database.Steady (evaluators.processing hashing .nothing) genesis
      (producing.afterPoolCall call database).clearPending := by
  have pushes : ∀ (block : Block Id Tx H) (before : Database hashing (Body TxId Tx Rest)),
      Database.Steady (evaluators.processing hashing .nothing) genesis before.clearPending →
      Database.orderly (evaluators.processing hashing .nothing) block before.clearPending = true →
      Database.Steady (evaluators.processing hashing .nothing) genesis
        (left (Database.pushBlock (evaluators.processing hashing .nothing) block
          before)).clearPending := by
    intro block before steady orderly
    have pushed := Database.pushUnprotected_steady steady orderly
    rw [Database.left_pushBlock]
    obtain ⟨kept, _⟩ := @Database.finishPush_settled _ _ _ _ _
      (evaluators.processing hashing .nothing) _ before.pendingTx pushed.1
    exact pushed.of_store (Database.clearPending_idle _) kept
  cases call with
  | pushBlock block => exact pushes block database steady settled
  | pushTransaction transaction =>
    obtain ⟨kept, _⟩ := @Database.pushPending_settled _ _ _ _ _
      (evaluators.processing hashing .nothing) database transaction pooled.opened
    exact steady.of_store (Database.clearPending_idle _) kept
  | generateBlock due owner key =>
    rw [afterPoolCall, Producing.generateBlock]
    cases assembles : producing.assembleBlock due owner key database with
    | error thrown stopped =>
      rcases assembleBlock_stops assembles with rfl | ⟨rfl, _⟩
      · exact steady
      · rw [left, resetPendingSession_clear]
        exact steady
    | ok block built =>
      obtain ⟨rfl, _, _, included, fills, rfl⟩ := assembleBlock_parts assembles
      have final := pushes
        (producing.buildBlock due owner key included database.clearPending.store.current)
        database.resetPendingSession
      rw [resetPendingSession_clear] at final
      have kept := final steady (settled included fills.selectable).2
      dsimp only
      cases pushed : Database.pushBlock (evaluators.processing hashing .nothing)
          (producing.buildBlock due owner key included database.clearPending.store.current)
          database.resetPendingSession <;> rw [pushed] at kept <;> exact kept

/-- What holds of one settled call holds of a run. -/
theorem SettledRun.pooled {calls : List (PoolCall Id Tx H Key)}
    (settled : producing.SettledRun calls database)
    (steady : Database.Steady (evaluators.processing hashing .nothing) genesis database.clearPending)
    (pooled : Pooled evaluators database) :
    Database.Steady (evaluators.processing hashing .nothing) genesis
        (producing.afterPoolCalls calls database).clearPending ∧
      Pooled evaluators (producing.afterPoolCalls calls database) := by
  induction calls generalizing database with
  | nil => exact ⟨steady, pooled⟩
  | cons call rest inductionHypothesis =>
    obtain ⟨first, others⟩ := settled
    exact inductionHypothesis others (first.steady steady pooled) (first.pooled pooled)

omit [DecidableEq Id] in
/-- Transactions do not reach the core. -/
theorem transactionSteps_core {transactions : List Tx}
    {state reached : ChainState Id (Body TxId Tx Rest)}
    (done : evalAll (transactionSteps evaluators hashing transactions) state = .ok () reached) :
    reached.core = state.core := by
  have keeps : ∀ step ∈ transactionSteps evaluators hashing transactions,
      Keeps ChainState.core step := by
    intro step member
    obtain ⟨transaction, _, rfl⟩ := List.mem_map.mp member
    exact bodyStep_keeps _
  have kept := evalAll_keeps keeps state
  rw [done] at kept
  exact kept

end Producing

/-- After every run of settled calls, each returning or throwing, the visible state is the
state after the head block with the pending transactions applied in turn, and the pending
session is open when there are any. -/
theorem settled_run_pooled [DecidableEq TxId] [DecidableEq Id] [DecidableEq Key]
    {evaluators : Evaluators Id Tx H TxId Rest} (hashing : Hashing Id Tx H)
    (producing : Producing evaluators Key) (genesis : Body TxId Tx Rest)
    (calls : List (PoolCall Id Tx H Key))
    (settled : producing.SettledRun calls (Database.genesis hashing genesis)) :
    let database := producing.afterPoolCalls calls (Database.genesis hashing genesis)
    (∃ chain head, IsChain hashing chain ∧ tip hashing chain = database.core.headBlockId ∧
        stateAfter hashing (evaluators.processing hashing .nothing) genesis chain = some head ∧
        evalAll (transactionSteps evaluators hashing database.pendingTx) head =
          .ok () database.store.current) ∧
      (database.pendingTx ≠ [] → database.pendingSession = true) := by
  obtain ⟨⟨_, chain, tracked⟩, _, applies, session⟩ := settled.pooled
    ⟨rfl, [], tracked_genesis hashing (evaluators.processing hashing .nothing) genesis⟩
    (pooled_of_idle rfl rfl)
  refine ⟨⟨chain, _, tracked.reached.linked, ?_, tracked.lineage.replayed, applies⟩, session⟩
  rw [Database.core, Producing.transactionSteps_core applies, tracked.reached.head]

namespace SlotChain

/-- Every transaction has as many bytes as its number says, and the witnesses have set a
maximum beyond `DEIP_MAX_BLOCK_SIZE`. -/
def generous : Producing evaluators String :=
  { producing with
    packSize := id
    blockSize block := 200 + block.transactions.sum
    maximumBlockSize _ := 400000000
    timestamp_header _ _ _ _ _ _ := rfl }

/-- The database after some calls on a new data directory. -/
def pool (calls : List (PoolCall (List (Entry Nat Nat)) Nat Nat String)) :
    Database (Hashing.spelled Nat Nat) (Body Nat Nat Slots) :=
  generous.afterPoolCalls calls
    (Database.genesis (Hashing.spelled Nat Nat) ⟨0, [], ⟨0, 2 ^ 128 - 1, 128⟩⟩)

/-- Two transactions, and the block of alice for the third slot. -/
def fullPool : List (PoolCall (List (Entry Nat Nat)) Nat Nat String) :=
  [.pushTransaction 200000000, .pushTransaction 199000000, .generateBlock 9 "alice" "alice"]

/-- The exception for the size of the block leaves the pending transactions without their
session: they are in the list, and none of them is applied. -/
theorem full_pool_without_session :
    (pool fullPool).pendingTx = [200000000, 199000000] ∧
      (pool fullPool).pendingSession = false ∧
      (pool fullPool).store.current.body.transactions = [] := by
  decide +kernel

/-- A transaction that is taken into a block, and one that is pushed on it. -/
def smallPool : List (PoolCall (List (Entry Nat Nat)) Nat Nat String) :=
  [.pushTransaction 500, .generateBlock 9 "alice" "alice", .pushTransaction 700]

/-- Whether a block of alice with some transactions meets the condition on the pool. -/
def settles (taken : List Nat) : Bool :=
  let database := pool [.pushTransaction 500]
  let block := generous.buildBlock 9 "alice" "alice" taken database.clearPending.store.current
  decide (generous.blockSize block ≤ maxBlockSize) &&
    Database.orderly (evaluators.processing (Hashing.spelled Nat Nat) .nothing) block
      database.clearPending

theorem smallPool_settled : generous.SettledRun smallPool
    (Database.genesis (Hashing.spelled Nat Nat) ⟨0, [], ⟨0, 2 ^ 128 - 1, 128⟩⟩) := by
  refine ⟨trivial, ?_, trivial, trivial⟩
  rintro taken ⟨listed, _⟩
  have listed' : (pool [.pushTransaction 500]).pendingTx.filter
      (fun transaction => 9 ≤ evaluators.expiration transaction) = [500] := by decide +kernel
  have every : ∀ taken ∈ [[], [500]], settles taken = true := by decide +kernel
  have passed := every taken (by simpa using List.sublist_singleton.mp (listed' ▸ listed))
  obtain ⟨small, orderly⟩ := Bool.and_eq_true_iff.mp passed
  exact ⟨of_decide_eq_true small, orderly⟩

/-- The block has taken the first transaction, and the second is pending on it. -/
theorem small_pool_on_block : (pool smallPool).pendingTx = [700] ∧
    ∃ chain head, IsChain (Hashing.spelled Nat Nat) chain ∧
      tip (Hashing.spelled Nat Nat) chain = (pool smallPool).core.headBlockId ∧
      stateAfter (Hashing.spelled Nat Nat)
          (evaluators.processing (Hashing.spelled Nat Nat) .nothing)
          ⟨0, [], ⟨0, 2 ^ 128 - 1, 128⟩⟩ chain = some head ∧
      evalAll (transactionSteps evaluators (Hashing.spelled Nat Nat) [700]) head =
        .ok () (pool smallPool).store.current := by
  have pending : (pool smallPool).pendingTx = [700] := by decide +kernel
  obtain ⟨⟨chain, head, linked, named, replayed, applies⟩, _⟩ := settled_run_pooled
    (Hashing.spelled Nat Nat) generous ⟨0, [], ⟨0, 2 ^ 128 - 1, 128⟩⟩ smallPool smallPool_settled
  refine ⟨pending, chain, head, linked, named, replayed, ?_⟩
  rw [← pending]
  exact applies

end SlotChain

end DeipChain.Chain
