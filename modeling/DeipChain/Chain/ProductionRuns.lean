import DeipChain.Chain.HeadTime
import DeipChain.Chain.Production

/-!
# Runs of the production loop

The plugin produces a block only for the second its clock shows, so the times of its
blocks follow the clock. That they differ rests on the time of the head: once a block is
pushed the head is no earlier than it, and no slot has come before the time of the head is
over. Only a switch of forks can set the time of the head back, and then the same second
can be produced for twice.
-/
namespace DeipChain.Chain

open Snapshots
open DeipChain.WitnessSchedule (blockInterval)

variable {Id Tx H TxId Rest Key : Type} {hashing : Hashing Id Tx H}

section Slots

variable {core : Core Id} {time due : Nat}

/-- No slot has come before the head's own time is over. -/
theorem getSlotAtTime_eq_zero (early : due ≤ time) (fits : time + blockInterval < secondsRange) :
    getSlotAtTime due core time = 0 := by
  have later : time < getSlotTime 1 core time := by
    have aligned := Nat.div_add_mod time blockInterval
    have remainder : time % blockInterval < blockInterval := Nat.mod_lt _ (by decide)
    rw [Nat.mul_comm] at aligned
    rw [getSlotTime, if_neg (by decide), Nat.one_mul]
    split
    · rw [Nat.mod_eq_of_lt fits]
      exact Nat.lt_add_of_pos_right (by decide)
    · rw [Nat.mod_eq_of_lt (by omega)]
      omega
  rw [getSlotAtTime, if_pos (by omega)]

/-- Two times in whole seconds are within half a second only if they are equal. -/
theorem eq_of_not_lagging {scheduled now : Nat} (timely : lagging scheduled now = false) :
    scheduled = now := by
  simp only [lagging, decide_eq_false_iff_not] at timely
  omega

end Slots

namespace Producing

variable [DecidableEq TxId] {evaluators : Evaluators Id Tx H TxId Rest}

/-- The sessions of the included transactions lie in the one that is undone. -/
theorem includePending_undo (producing : Producing evaluators Key) (hashing : Hashing Id Tx H)
    (due maximum size : Nat) (transactions : List Tx)
    (store : UndoStore (ChainState Id (Body TxId Tx Rest))) (opened : store.saved ≠ []) :
    (producing.includePending hashing due maximum size transactions store).2.undo =
      store.undo := by
  induction transactions generalizing size store with
  | nil => rfl
  | cons transaction rest inductionHypothesis =>
    rw [includePending]
    split
    · exact inductionHypothesis size store opened
    · split
      · exact inductionHypothesis size store opened
      · dsimp only
        rw [Script.run_open _ _ (by simp)]
        cases (bodyStep (evaluators.applyTransaction hashing .nothing transaction)
            store.current).eval store.start.current with
        | ok _ state =>
          simp only [outcomeMap, UndoStore.squash_put_start opened]
          rw [inductionHypothesis _ _ (by exact opened), Database.undo_put opened]
        | error thrown state =>
          simp only [outcomeMap, UndoStore.undo_put_start]
          exact inductionHypothesis size store opened

variable [DecidableEq Id] [DecidableEq Key] {producing : Producing evaluators Key}
  {plugin : WitnessPlugin Key} {due : Nat} {owner : String} {key : Key} {block : Block Id Tx H}
  {database built reached pushed : Database hashing (Body TxId Tx Rest)}

/-- The time of a block. -/
def timestamp (evaluators : Evaluators Id Tx H TxId Rest) (block : Block Id Tx H) : Nat :=
  evaluators.timestamp block.header

omit [DecidableEq Id] in
/-- A block is built on the head, for a slot that has come. -/
theorem assembleBlock_ok
    (done : producing.assembleBlock due owner key database = .ok block built) :
    getSlotAtTime due database.core database.headTime ≠ 0 ∧
      built = database.resetPendingSession ∧ block.previous = built.core.headBlockId ∧
      timestamp evaluators block = due ∧ block.witness = owner := by
  have restored := producing.includePending_undo hashing due
    (producing.maximumBlockSize database.store.current.body.rest) producing.maxBlockHeaderSize
    database.resetPendingSession.pendingTx database.resetPendingSession.store.start (by simp)
  rw [UndoStore.undo_start] at restored
  unfold assembleBlock at done
  dsimp only at done
  split at done
  · cases done
  · rename_i slot
    split at done
    · cases done
    · split at done
      · cases done
      · split at done
        · cases done
        · cases done
          rw [restored]
          exact ⟨slot, rfl, rfl, producing.timestamp_header _ _ _ _ _ _, rfl⟩

omit [DecidableEq Id] in
/-- Without a block the pending session is gone at most. -/
theorem assembleBlock_error {thrown : ChainError}
    (failed : producing.assembleBlock due owner key database = .error thrown reached) :
    reached = database ∨ reached = database.resetPendingSession := by
  have restored := producing.includePending_undo hashing due
    (producing.maximumBlockSize database.store.current.body.rest) producing.maxBlockHeaderSize
    database.resetPendingSession.pendingTx database.resetPendingSession.store.start (by simp)
  rw [UndoStore.undo_start] at restored
  unfold assembleBlock at failed
  dsimp only at failed
  split at failed
  · cases failed
    exact .inl rfl
  · split at failed
    · cases failed
      exact .inl rfl
    · split at failed
      · cases failed
        exact .inl rfl
      · split at failed
        · cases failed
          rw [restored]
          exact .inr rfl
        · cases failed

end Producing

/-- A call of `push_block`. -/
structure Push (hashing : Hashing Id Tx H) (R : Type) where
  skip : SkipFlags
  block : Block Id Tx H
  database : Database hashing R

namespace Producing

variable [DecidableEq TxId] [DecidableEq Id] [DecidableEq Key]
  {evaluators : Evaluators Id Tx H TxId Rest} (producing : Producing evaluators Key)
  (plugin : WitnessPlugin Key)

/-- The push of one try to produce a block. -/
def pushOfTry (due : Nat) (owner : String) (key : Key)
    (database : Database hashing (Body TxId Tx Rest)) : List (Push hashing (Body TxId Tx Rest)) :=
  match producing.assembleBlock due owner key database with
  | .ok block built => [⟨.nothing, block, built⟩]
  | .error _ _ => []

/-- The pushes of the retries. -/
def pushesOfTries (due : Nat) (owner : String) (key : Key) :
    Nat → Database hashing (Body TxId Tx Rest) → List (Push hashing (Body TxId Tx Rest))
  | 0, _ => []
  | tries + 1, database =>
    producing.pushOfTry due owner key database ++
      match producing.generateBlock due owner key database with
      | .ok _ _ => []
      | .error _ reached => pushesOfTries due owner key tries reached.clearPending

/-- The pushes of a wake-up. -/
def pushesOfWakeUp (first second : Nat) (node : Node hashing (Body TxId Tx Rest)) :
    List (Push hashing (Body TxId Tx Rest)) :=
  if first < plugin.genesisTime * 1000000 then []
  else if node.synced (roundedSecond second) then
    match producing.duty plugin (roundedSecond second) node.database with
    | .error _ => []
    | .ok (due, owner, key) => producing.pushesOfTries due owner key 2 node.database
  else []

/-- The pushes of an occurrence, of the network or of the plugin. -/
def pushesIn : Occurrence Id Tx H → Node hashing (Body TxId Tx Rest) →
    List (Push hashing (Body TxId Tx Rest))
  | .call skip (.pushBlock block), node => [⟨skip, block, node.database⟩]
  | .call _ (.pushTransaction _), _ => []
  | .wakeUp first second, node => producing.pushesOfWakeUp plugin first second node

/-- The pushes of a run, oldest first. -/
def pushes : List (Occurrence Id Tx H) → Node hashing (Body TxId Tx Rest) →
    List (Push hashing (Body TxId Tx Rest))
  | [], _ => []
  | occurrence :: rest, node =>
    producing.pushesIn plugin occurrence node ++
      pushes rest (producing.step plugin occurrence node).2

/-- A push that attempts a switch of forks leaves no head before a time, and starts from a
head whose next slot has a time in 32 bits. -/
def Abreast (evaluators : Evaluators Id Tx H TxId Rest) (floor : Nat)
    (push : Push hashing (Body TxId Tx Rest)) : Prop :=
  Database.attemptsSwitch push.block push.database.clearPending = true →
    floor ≤ (left (Database.pushBlock (evaluators.processing hashing push.skip) push.block
      push.database)).headTime ∧
      push.database.headTime + blockInterval < secondsRange

variable {producing} {plugin} {due floor : Nat} {owner : String} {key : Key} {block : Block Id Tx H}
  {database reached : Database hashing (Body TxId Tx Rest)}

/-- A try to produce a block does not set the time back below a floor that every switch of
forks keeps. -/
theorem generateBlock_keeps (calm : database.Calm)
    (abreast : ∀ push ∈ producing.pushOfTry due owner key database, Abreast evaluators floor push)
    (above : floor ≤ database.headTime) :
    floor ≤ (left (producing.generateBlock due owner key database)).headTime := by
  unfold generateBlock
  unfold pushOfTry at abreast
  cases assembles : producing.assembleBlock due owner key database with
  | error thrown stopped =>
    rcases assembleBlock_error assembles with rfl | rfl
    · exact above
    · exact le_of_le_of_eq above calm.reset.2.1.symm
  | ok block built =>
    obtain ⟨_, rfl, _⟩ := assembleBlock_ok assembles
    obtain ⟨calmBuilt, same, _⟩ := calm.reset
    rw [assembles] at abreast
    have kept : floor ≤ (left (Database.pushBlock (evaluators.processing hashing .nothing) block
        database.resetPendingSession)).headTime := by
      cases attempts : Database.attemptsSwitch block
          database.resetPendingSession.clearPending with
      | true => exact (abreast _ List.mem_cons_self attempts).1
      | false => exact Nat.le_trans (le_of_le_of_eq above same.symm) (calmBuilt.pushBlock_time attempts)
    dsimp only
    cases pushed : Database.pushBlock (evaluators.processing hashing .nothing) block
        database.resetPendingSession <;> rw [pushed] at kept <;> exact kept

theorem generateBlock_calm (calm : database.Calm) :
    (left (producing.generateBlock due owner key database)).Calm := by
  unfold generateBlock
  cases assembles : producing.assembleBlock due owner key database with
  | error thrown stopped =>
    rcases assembleBlock_error assembles with rfl | rfl
    · exact calm
    · exact calm.reset.1
  | ok block built =>
    obtain ⟨_, rfl, _⟩ := assembleBlock_ok assembles
    have final := @Database.Calm.pushBlock _ _ _ _ _ hashing _ _ evaluators .nothing _
      calm.reset.1 block
    dsimp only
    cases pushed : Database.pushBlock (evaluators.processing hashing .nothing) block
        database.resetPendingSession <;> rw [pushed] at final <;> exact final

/-- A produced block has the time of its slot. It is later than every floor that the
switches of forks keep, and the head is then no earlier than it. -/
theorem generateBlock_ok (calm : database.Calm)
    (done : producing.generateBlock due owner key database = .ok block reached) :
    timestamp evaluators block = due ∧
      ((∀ push ∈ producing.pushOfTry due owner key database, Abreast evaluators floor push) →
        (floor ≤ database.headTime → floor < due) ∧ (floor ≤ due → floor ≤ reached.headTime)) := by
  unfold generateBlock at done
  unfold pushOfTry
  cases assembles : producing.assembleBlock due owner key database with
  | error thrown stopped =>
    rw [assembles] at done
    cases done
  | ok built_ built =>
    rw [assembles] at done
    dsimp only at done
    split at done
    · rename_i switched after pushed
      cases done
      obtain ⟨slot, rfl, named, time, _⟩ := assembleBlock_ok assembles
      obtain ⟨calmBuilt, same, _⟩ := calm.reset
      refine ⟨time, fun abreast => ?_⟩
      have abreast := abreast _ List.mem_cons_self
      cases attempts : Database.attemptsSwitch block
          database.resetPendingSession.clearPending with
      | true =>
        obtain ⟨kept, fits⟩ := abreast attempts
        rw [pushed, left] at kept
        refine ⟨fun above => ?_, fun _ => kept⟩
        by_contra early
        dsimp only at fits
        rw [same] at fits
        exact slot (getSlotAtTime_eq_zero (by omega) fits)
      | false =>
        obtain ⟨later, headed⟩ := calmBuilt.pushBlock_extends attempts named pushed
        rw [same] at later
        rw [timestamp] at time
        exact ⟨fun above => by omega, fun below => by omega⟩
    · cases done

/-- What holds of one try holds of the retries. -/
theorem tryToProduce_keeps (calm : database.Calm) (tries : Nat) :
    (producing.tryToProduce due owner key tries database).2.Calm ∧
      ((∀ push ∈ producing.pushesOfTries due owner key tries database,
          Abreast evaluators floor push) → floor ≤ database.headTime →
        floor ≤ (producing.tryToProduce due owner key tries database).2.headTime) := by
  induction tries generalizing database with
  | zero => exact ⟨calm, fun _ above => above⟩
  | succ tries inductionHypothesis =>
    have calmNext := @generateBlock_calm _ _ _ _ _ _ hashing _ _ _ _ producing due owner key _ calm
    have keeps := @generateBlock_keeps _ _ _ _ _ _ hashing _ _ _ _ producing due floor owner key _
      calm
    unfold tryToProduce pushesOfTries
    cases outcome : producing.generateBlock due owner key database with
    | ok block pushed =>
      rw [outcome] at calmNext keeps
      refine ⟨calmNext, fun abreast => keeps fun push member => ?_⟩
      exact abreast push (List.mem_append_left _ member)
    | error thrown stopped =>
      rw [outcome] at calmNext keeps
      obtain ⟨calmClear, sameClear⟩ := Database.Calm.clear calmNext
      obtain ⟨final, later⟩ := inductionHypothesis calmClear
      refine ⟨final, fun abreast above => later (fun push member => ?_) ?_⟩
      · exact abreast push (List.mem_append_right _ member)
      · rw [sameClear]
        exact keeps (fun push member => abreast push (List.mem_append_left _ member)) above

theorem tryToProduce_produced {tries : Nat} (calm : database.Calm)
    (done : producing.tryToProduce due owner key tries database = (.produced block, reached)) :
    timestamp evaluators block = due ∧
      ((∀ push ∈ producing.pushesOfTries due owner key tries database,
          Abreast evaluators floor push) →
        (floor ≤ database.headTime → floor < due) ∧ (floor ≤ due → floor ≤ reached.headTime)) := by
  induction tries generalizing database with
  | zero => cases done
  | succ tries inductionHypothesis =>
    have calmNext := @generateBlock_calm _ _ _ _ _ _ hashing _ _ _ _ producing due owner key _ calm
    have keeps := @generateBlock_keeps _ _ _ _ _ _ hashing _ _ _ _ producing due floor owner key _
      calm
    unfold tryToProduce at done
    unfold pushesOfTries
    cases outcome : producing.generateBlock due owner key database with
    | ok produced pushed =>
      rw [outcome] at done
      cases done
      obtain ⟨time, follows⟩ := @generateBlock_ok _ _ _ _ _ _ hashing _ _ _ _ producing due floor
        owner key _ _ _ calm outcome
      exact ⟨time, fun abreast => follows fun push member =>
        abreast push (List.mem_append_left _ member)⟩
    | error thrown stopped =>
      rw [outcome] at done calmNext keeps
      obtain ⟨calmClear, sameClear⟩ := Database.Calm.clear calmNext
      obtain ⟨time, follows⟩ := inductionHypothesis calmClear done
      refine ⟨time, fun abreast => ?_⟩
      obtain ⟨later, headed⟩ := follows fun push member =>
        abreast push (List.mem_append_right _ member)
      refine ⟨fun above => later ?_, headed⟩
      rw [sameClear]
      exact keeps (fun push member => abreast push (List.mem_append_left _ member)) above

omit [DecidableEq TxId] [DecidableEq Id] in
/-- A duty is for the second it is asked for. -/
theorem duty_ok {now : Nat} (done : producing.duty plugin now database = .ok (due, owner, key)) :
    due = now := by
  unfold duty at done
  dsimp only at done
  iterate 4
    split at done
    · cases done
  split at done
  · cases done
  · rename_i timely
    cases done
    exact eq_of_not_lagging (Bool.not_eq_true _ ▸ timely)

omit [DecidableEq TxId] [DecidableEq Id] in
theorem duty_error {now : Nat} {condition : BlockProductionCondition Id Tx H}
    (failed : producing.duty plugin now database = .error condition) :
    condition ≠ .produced block := by
  unfold duty at failed
  dsimp only at failed
  iterate 5
    split at failed
    · cases failed
      simp
  cases failed

variable {node : Node hashing (Body TxId Tx Rest)}

theorem maybeProduceBlock_duty {reading : Nat} {condition : BlockProductionCondition Id Tx H}
    (synced : node.synced (roundedSecond reading) = true)
    (asked : producing.duty plugin (roundedSecond reading) node.database = .ok (due, owner, key))
    (tried : producing.tryToProduce due owner key 2 node.database = (condition, reached)) :
    producing.maybeProduceBlock plugin reading node = (condition, ⟨true, reached⟩) := by
  rw [maybeProduceBlock, if_pos synced, asked]
  dsimp only
  rw [tried]

/-- A wake-up leaves the database alone, or tries to produce a block for its second. -/
theorem blockProductionLoop_cases (producing : Producing evaluators Key)
    (plugin : WitnessPlugin Key) (first second : Nat) (node : Node hashing (Body TxId Tx Rest)) :
    (producing.pushesOfWakeUp plugin first second node = [] ∧
      ∃ condition enabled, (∀ block, condition ≠ .produced block) ∧
        producing.blockProductionLoop plugin first second node =
          (condition, ⟨enabled, node.database⟩)) ∨
    ∃ owner key condition reached,
      producing.pushesOfWakeUp plugin first second node =
        producing.pushesOfTries (roundedSecond second) owner key 2 node.database ∧
      producing.tryToProduce (roundedSecond second) owner key 2 node.database =
        (condition, reached) ∧
      producing.blockProductionLoop plugin first second node = (condition, ⟨true, reached⟩) := by
  by_cases early : first < plugin.genesisTime * 1000000
  · refine .inl ⟨?_, .waitForGenesis, node.productionEnabled, by simp, ?_⟩
    · rw [pushesOfWakeUp, if_pos early]
    · rw [blockProductionLoop, if_pos early]
  · rw [pushesOfWakeUp, blockProductionLoop, if_neg early, if_neg early]
    by_cases synced : node.synced (roundedSecond second) = true
    · cases asked : producing.duty plugin (roundedSecond second) node.database with
      | error condition =>
        rw [maybeProduceBlock, if_pos synced, if_pos synced, asked]
        exact .inl ⟨rfl, condition, true, fun block => duty_error asked, rfl⟩
      | ok task =>
        obtain ⟨due, owner, key⟩ := task
        obtain rfl := duty_ok asked
        cases tried : producing.tryToProduce (roundedSecond second) owner key 2 node.database with
        | mk condition reached =>
          refine .inr ⟨owner, key, condition, reached, ?_, tried,
            maybeProduceBlock_duty synced asked tried⟩
          rw [if_pos synced]
    · rw [maybeProduceBlock, if_neg synced, if_neg synced]
      exact .inl ⟨rfl, .notSynced, node.productionEnabled, by simp, rfl⟩

/-- An occurrence does not set the time back below a floor that every switch of forks
keeps. -/
theorem step_keeps (calm : node.database.Calm) (occurrence : Occurrence Id Tx H) :
    (producing.step plugin occurrence node).2.database.Calm ∧
      ((∀ push ∈ producing.pushesIn plugin occurrence node, Abreast evaluators floor push) →
        floor ≤ node.database.headTime →
          floor ≤ (producing.step plugin occurrence node).2.database.headTime) := by
  cases occurrence with
  | call skip call =>
    refine ⟨calm.afterCall call, fun abreast above => ?_⟩
    cases call with
    | pushTransaction transaction =>
      exact le_of_le_of_eq above (Database.pushPending_time transaction node.database).symm
    | pushBlock block =>
      cases attempts : Database.attemptsSwitch block node.database.clearPending with
      | true => exact (abreast _ List.mem_cons_self attempts).1
      | false => exact Nat.le_trans above (calm.pushBlock_time attempts)
  | wakeUp first second =>
    rw [step]
    rcases blockProductionLoop_cases producing plugin first second node with
      ⟨_, condition, enabled, _, outcome⟩ | ⟨owner, key, condition, reached, pushed, tried, outcome⟩
    · rw [outcome]
      exact ⟨calm, fun _ above => above⟩
    · have kept := @tryToProduce_keeps _ _ _ _ _ _ hashing _ _ _ _ producing
        (roundedSecond second) floor owner key _ calm 2
      rw [tried] at kept
      rw [outcome, pushesIn, pushed]
      exact kept

/-- A block is produced at a wake-up, with the second of its reading as its time. It is
later than every floor that the switches of forks keep, and the head is then no earlier
than it. -/
theorem step_produced {occurrence : Occurrence Id Tx H} (calm : node.database.Calm)
    (done : (producing.step plugin occurrence node).1 = some block) :
    (∃ reading ∈ occurrence.readings, timestamp evaluators block = roundedSecond reading) ∧
      ((∀ push ∈ producing.pushesIn plugin occurrence node, Abreast evaluators floor push) →
        (floor ≤ node.database.headTime → floor < timestamp evaluators block) ∧
          (floor ≤ timestamp evaluators block →
            floor ≤ (producing.step plugin occurrence node).2.database.headTime)) := by
  cases occurrence with
  | call skip call => cases done
  | wakeUp first second =>
    rw [step] at done ⊢
    have produced := BlockProductionCondition.block_eq_some.mp done
    rcases blockProductionLoop_cases producing plugin first second node with
      ⟨_, condition, enabled, idle, outcome⟩ |
        ⟨owner, key, condition, reached, pushed, tried, outcome⟩
    · rw [outcome] at produced
      exact absurd produced (idle block)
    · rw [outcome] at produced
      dsimp only at produced
      rw [produced] at tried
      obtain ⟨time, follows⟩ := @tryToProduce_produced _ _ _ _ _ _ hashing _ _ _ _ producing
        (roundedSecond second) floor owner key block _ _ 2 calm tried
      rw [outcome, pushesIn, pushed, time]
      exact ⟨⟨second, by simp [Occurrence.readings], rfl⟩, follows⟩

/-- A run does not set the time back below a floor that every switch of forks keeps. -/
theorem run_keeps (calm : node.database.Calm) (occurrences : List (Occurrence Id Tx H)) :
    (producing.run plugin occurrences node).database.Calm ∧
      ((∀ push ∈ producing.pushes plugin occurrences node, Abreast evaluators floor push) →
        floor ≤ node.database.headTime →
          floor ≤ (producing.run plugin occurrences node).database.headTime) := by
  induction occurrences generalizing node with
  | nil => exact ⟨calm, fun _ above => above⟩
  | cons occurrence rest inductionHypothesis =>
    obtain ⟨calmNext, keeps⟩ := @step_keeps _ _ _ _ _ _ hashing _ _ _ _ producing plugin floor node
      calm occurrence
    obtain ⟨final, later⟩ := inductionHypothesis calmNext
    refine ⟨final, fun abreast above => later (fun push member => ?_) ?_⟩
    · exact abreast push (List.mem_append_right _ member)
    · exact keeps (fun push member => abreast push (List.mem_append_left _ member)) above

theorem run_append (occurrences more : List (Occurrence Id Tx H)) :
    producing.run plugin (occurrences ++ more) node =
      producing.run plugin more (producing.run plugin occurrences node) := by
  induction occurrences generalizing node with
  | nil => rfl
  | cons occurrence rest inductionHypothesis => exact inductionHypothesis

theorem pushes_append (occurrences more : List (Occurrence Id Tx H)) :
    producing.pushes plugin (occurrences ++ more) node =
      producing.pushes plugin occurrences node ++
        producing.pushes plugin more (producing.run plugin occurrences node) := by
  induction occurrences generalizing node with
  | nil => rfl
  | cons occurrence rest inductionHypothesis =>
    simp only [List.cons_append, pushes, run, inductionHypothesis, List.append_assoc]

/-- A block produced after another one is later, when every switch of forks tried since
keeps the time of the first. -/
theorem produced_later {first last : Occurrence Id Tx H} {between : List (Occurrence Id Tx H)}
    {other : Block Id Tx H} (calm : node.database.Calm)
    (produced : (producing.step plugin first node).1 = some block)
    (again : (producing.step plugin last (producing.run plugin (first :: between) node)).1 =
      some other)
    (abreast : ∀ push ∈ producing.pushes plugin (first :: (between ++ [last])) node,
      Abreast evaluators (timestamp evaluators block) push) :
    timestamp evaluators block < timestamp evaluators other := by
  rw [← List.cons_append, pushes_append] at abreast
  have since : ∀ push ∈ producing.pushes plugin (first :: between) node,
      Abreast evaluators (timestamp evaluators block) push :=
    fun push member => abreast push (List.mem_append_left _ member)
  have calmNext := (@step_keeps _ _ _ _ _ _ hashing _ _ _ _ producing plugin 0 node calm first).1
  have reached := ((step_produced calm produced).2 fun push member =>
    since push (List.mem_append_left _ member)).2 (Nat.le_refl _)
  obtain ⟨calmLast, keeps⟩ := @run_keeps _ _ _ _ _ _ hashing _ _ _ _ producing plugin
    (timestamp evaluators block) _ calmNext between
  have kept := keeps (fun push member => since push (List.mem_append_right _ member)) reached
  refine ((step_produced calmLast again).2 fun push member => ?_).1 kept
  refine abreast push (List.mem_append_right _ ?_)
  rw [pushes, pushes, List.append_nil]
  exact member

omit [DecidableEq TxId] [DecidableEq Id] [DecidableEq Key] in
/-- Rounding keeps the order of the readings that fit into 32-bit seconds. -/
theorem roundedSecond_mono {reading later : Nat} (forward : reading ≤ later)
    (fits : later + 500000 < secondsRange * 1000000) :
    roundedSecond reading ≤ roundedSecond later := by
  have range : secondsRange = 4294967296 := rfl
  simp only [roundedSecond, range] at fits ⊢
  omega

/-- Every block of a run was produced for the second of a reading. -/
theorem production_reading (calm : node.database.Calm) {occurrences : List (Occurrence Id Tx H)}
    (produced : block ∈ producing.production plugin occurrences node) :
    ∃ reading ∈ occurrences.flatMap Occurrence.readings,
      timestamp evaluators block = roundedSecond reading := by
  induction occurrences generalizing node with
  | nil => cases produced
  | cons occurrence rest inductionHypothesis =>
    rw [List.flatMap_cons]
    rcases List.mem_append.mp produced with now | later
    · obtain ⟨⟨reading, member, second⟩, _⟩ :=
        @step_produced _ _ _ _ _ _ hashing _ _ _ _ producing plugin 0 block node occurrence calm
          (Option.mem_toList.mp now)
      exact ⟨reading, List.mem_append_left _ member, second⟩
    · have calmNext :=
        (@step_keeps _ _ _ _ _ _ hashing _ _ _ _ producing plugin 0 node calm occurrence).1
      obtain ⟨reading, member, second⟩ := inductionHypothesis calmNext later
      exact ⟨reading, List.mem_append_right _ member, second⟩

/-- The times of the produced blocks follow the clock. -/
theorem production_ascends (calm : node.database.Calm) {occurrences : List (Occurrence Id Tx H)}
    (forward : (occurrences.flatMap Occurrence.readings).Pairwise (· ≤ ·))
    (fits : ∀ reading ∈ occurrences.flatMap Occurrence.readings,
      reading + 500000 < secondsRange * 1000000) :
    ((producing.production plugin occurrences node).map (timestamp evaluators)).Pairwise
      (· ≤ ·) := by
  induction occurrences generalizing node with
  | nil => exact List.Pairwise.nil
  | cons occurrence rest inductionHypothesis =>
    rw [List.flatMap_cons] at forward fits
    obtain ⟨_, forwardRest, across⟩ := List.pairwise_append.mp forward
    have calmNext :=
      (@step_keeps _ _ _ _ _ _ hashing _ _ _ _ producing plugin 0 node calm occurrence).1
    have ascends := inductionHypothesis calmNext forwardRest
      (fun reading member => fits reading (List.mem_append_right _ member))
    rw [production]
    cases now : (producing.step plugin occurrence node).1 with
    | none => exact ascends
    | some block =>
      rw [Option.toList_some, List.singleton_append, List.map_cons, List.pairwise_cons]
      refine ⟨fun time member => ?_, ascends⟩
      obtain ⟨other, produced, rfl⟩ := List.mem_map.mp member
      obtain ⟨⟨reading, read, second⟩, _⟩ :=
        @step_produced _ _ _ _ _ _ hashing _ _ _ _ producing plugin 0 block node occurrence calm now
      obtain ⟨laterReading, readLater, laterSecond⟩ := production_reading calmNext produced
      rw [second, laterSecond]
      exact roundedSecond_mono (across reading read laterReading readLater)
        (fits laterReading (List.mem_append_right _ readLater))

end Producing

/-- A node opened on a new data directory, at the time of genesis. -/
def Node.genesis (hashing : Hashing Id Tx H) (productionEnabled : Bool) (time : Nat) (rest : Rest) :
    Node hashing (Body TxId Tx Rest) :=
  ⟨productionEnabled, Database.genesis hashing ⟨time, [], rest⟩⟩

theorem calm_genesis (hashing : Hashing Id Tx H) (productionEnabled : Bool) (time : Nat)
    (rest : Rest) :
    (Node.genesis hashing productionEnabled time rest :
      Node hashing (Body TxId Tx Rest)).database.Calm :=
  Database.calm_of_idle rfl ⟨hashing.numFromId_null, List.forall_mem_nil _⟩

/-- In every run from genesis, however wake-ups and calls from the network are interleaved,
the times of the produced blocks never decrease. Two blocks are produced for the same time
only when a push in between has tried to switch forks and has left the head before that
time. -/
theorem production_times [DecidableEq TxId] [DecidableEq Id] [DecidableEq Key]
    {evaluators : Evaluators Id Tx H TxId Rest} (hashing : Hashing Id Tx H)
    (producing : Producing evaluators Key) (plugin : WitnessPlugin Key)
    (productionEnabled : Bool) (time : Nat) (rest : Rest)
    (occurrences : List (Occurrence Id Tx H))
    (forward : (occurrences.flatMap Occurrence.readings).Pairwise (· ≤ ·))
    (fits : ∀ reading ∈ occurrences.flatMap Occurrence.readings,
      reading + 500000 < secondsRange * 1000000) :
    ((producing.production plugin occurrences
        (Node.genesis hashing productionEnabled time rest)).map
          (Producing.timestamp evaluators)).Pairwise (· ≤ ·) ∧
      ∀ earlier first between last later block other,
        occurrences = earlier ++ first :: (between ++ last :: later) →
        (producing.step plugin first (producing.run plugin earlier
          (Node.genesis hashing productionEnabled time rest))).1 = some block →
        (producing.step plugin last (producing.run plugin (earlier ++ first :: between)
          (Node.genesis hashing productionEnabled time rest))).1 = some other →
        (∀ push ∈ producing.pushes plugin (first :: (between ++ [last]))
            (producing.run plugin earlier (Node.genesis hashing productionEnabled time rest)),
          Producing.Abreast evaluators (Producing.timestamp evaluators block) push) →
        Producing.timestamp evaluators block < Producing.timestamp evaluators other := by
  have calm : (Node.genesis hashing productionEnabled time rest :
      Node hashing (Body TxId Tx Rest)).database.Calm :=
    calm_genesis hashing productionEnabled time rest
  refine ⟨Producing.production_ascends calm forward fits, ?_⟩
  intro earlier first between last later block other _ produced again abreast
  have reached := (@Producing.run_keeps _ _ _ _ _ _ hashing _ _ _ _ producing plugin 0 _ calm
    earlier).1
  rw [Producing.run_append] at again
  exact Producing.produced_later reached produced again abreast

/-!
## A chain of three witnesses

The header of a block is its time. Of the objects only the slots are kept: those that have
gone by and which of the last 128 were filled.
-/

namespace SlotChain

/-- The slots of `dynamic_global_property_object`. -/
structure Slots where
  currentAslot : Nat
  recentSlotsFilled : Nat
  participationCount : Nat
  deriving DecidableEq

/-- A slot goes by. -/
def Slots.shift (filled : Nat) (slots : Slots) : Slots :=
  { currentAslot := slots.currentAslot + 1
    recentSlotsFilled := (slots.recentSlotsFilled * 2 + filled) % 2 ^ 128
    participationCount := slots.participationCount - slots.recentSlotsFilled / 2 ^ 127 + filled }

/-- The loop of `update_global_dynamic_data`: only its first slot counts as filled. -/
def Slots.advance (slots : Slots) : Nat → Slots
  | 0 => slots.shift 1
  | missed + 1 => (slots.advance missed).shift 0

/-- The witnesses of a round. -/
def shuffled : List String := ["alice", "bob", "carol"]

/-- Evaluators that count the slots and check the witness of a block. -/
def evaluators : Evaluators (List (Entry Nat Nat)) Nat Nat Nat Slots where
  trxId := id
  trxId_injective := Function.injective_id
  expiration := id
  refBlockNum _ := 0
  refBlockPrefix _ := 0
  idPrefix _ := 0
  timestamp := id
  merkleMatches _ := true
  validateSignee _ _ _ _ := .ok ()
  scheduledWitness block core time slots :=
    if 0 < getSlotAtTime block.header core time ∧
        shuffled[(slots.currentAslot + getSlotAtTime block.header core time) % 3]? =
          some block.witness then .ok ()
    else .error (.rejected "Witness produced block at wrong time")
  beginBlock _ _ _ _ := .done
  validate _ := .ok ()
  verifyAuthority _ _ _ _ := .ok ()
  operations _ _ _ _ := .done
  updateSlots block core time slots :=
    .write (slots.advance (getSlotAtTime block.header core time - 1)) .done
  updateSigningWitness _ _ _ _ := .done
  currentShuffledWitnesses _ := shuffled
  clearExpiredRecentEntities _ _ _ _ := .done
  clearExpiredProposals _ _ _ := .done
  clearExpiredDisciplineSupplies _ _ _ := .done
  updateWitnessSchedule _ _ _ := .done
  processResearchTokenSales _ _ _ := .done
  processFunds _ _ _ := .done
  processCommonTokensWithdrawals _ _ _ := .done
  processAccountRecovery _ _ _ := .done
  processHardforks _ _ _ := .done
  processDisciplineSupplies _ _ _ := .done
  processExpertiseAllocationProposals _ _ _ := .done
  processNdaContracts _ _ _ := .done
  notifyAppliedBlock _ _ _ _ := .done

/-- Every transaction has 100 bytes, and the key of a witness is its name. -/
def producing : Producing evaluators String where
  packSize _ := 100
  blockSize block := 200 + 100 * block.transactions.length
  maxBlockHeaderSize := 200
  maximumBlockSize _ := 65536
  currentAslot := Slots.currentAslot
  signingKey _ owner := owner
  witnessParticipationRate slots := 10000 * slots.participationCount / 128
  header due _ _ _ _ _ := due
  timestamp_header _ _ _ _ _ _ := rfl

/-- A plugin that produces for alice. -/
def plugin : WitnessPlugin String :=
  { witnesses := ["alice"], privateKeys := ["alice"], requiredWitnessParticipation := 3300,
    genesisTime := 0 }

/-- The node right after genesis, with all recent slots filled. -/
def start : Node (Hashing.spelled Nat Nat) (Body Nat Nat Slots) :=
  Node.genesis (Hashing.spelled Nat Nat) false 0 ⟨0, 2 ^ 128 - 1, 128⟩

/-- A wake-up that reads the clock twice in the same microsecond. -/
def wakeUp (reading : Nat) : Occurrence (List (Entry Nat Nat)) Nat Nat := .wakeUp reading reading

/-- The network's blocks of bob and carol. -/
def branch : List (Occurrence (List (Entry Nat Nat)) Nat Nat) :=
  (Entry.blocks [("carol", [], 6), ("bob", [], 3)]).map
    (fun block => .call .nothing (.pushBlock block))

/-- Two wake-ups around second 9, the slot of alice, with the branch in between. -/
def sameSecond : List (Occurrence (List (Entry Nat Nat)) Nat Nat) :=
  wakeUp 2000000 :: wakeUp 8600000 :: (branch ++ [wakeUp 9400000])

/-- A wake-up at second 18, the branch, and one nine seconds after the 32-bit seconds have
run out. -/
def wrapped : List (Occurrence (List (Entry Nat Nat)) Nat Nat) :=
  wakeUp 2000000 :: wakeUp 18000000 :: (branch ++ [wakeUp (secondsRange * 1000000 + 9000000)])

/-- The witness, the time and the number of a block. -/
def summary (block : Block (List (Entry Nat Nat)) Nat Nat) : String × Nat × Nat :=
  (block.witness, Producing.timestamp evaluators block, (Hashing.spelled Nat Nat).num block)

/-- When the branch arrives late, alice produces two different blocks for second 9. When
the clock has run past the 32-bit seconds, her second block is earlier than her first. -/
theorem late_branch_repeats :
    (sameSecond.flatMap Occurrence.readings).Pairwise (· ≤ ·) ∧
      (wrapped.flatMap Occurrence.readings).Pairwise (· ≤ ·) ∧
      (producing.production plugin sameSecond start).map summary =
        [("alice", 9, 1), ("alice", 9, 3)] ∧
      (producing.production plugin wrapped start).map summary =
        [("alice", 18, 1), ("alice", 9, 3)] := by
  decide +kernel

/-- Two slots of alice, with bob's block in time for his own. -/
def punctual : List (Occurrence (List (Entry Nat Nat)) Nat Nat) :=
  [wakeUp 2000000, wakeUp 8600000,
    .call .nothing (.pushBlock (Entry.block ("bob", [], 12) [("alice", [], 9)])),
    wakeUp 17700000]

/-- Without a switch of forks alice's second block is later. -/
theorem punctual_blocks_rise :
    (((producing.production plugin punctual start).map
        (Producing.timestamp evaluators)).Pairwise (· ≤ ·)) ∧
      ∃ block other, (producing.production plugin punctual start) = [block, other] ∧
        Producing.timestamp evaluators block < Producing.timestamp evaluators other := by
  have times := production_times (Hashing.spelled Nat Nat) producing plugin false 0
    ⟨0, 2 ^ 128 - 1, 128⟩ punctual (by decide +kernel) (by decide +kernel)
  refine ⟨times.1, Entry.block ("alice", [], 9) [],
    Entry.block ("alice", [], 18) [("bob", [], 12), ("alice", [], 9)], by decide +kernel, ?_⟩
  refine times.2 [wakeUp 2000000] (wakeUp 8600000)
    [.call .nothing (.pushBlock (Entry.block ("bob", [], 12) [("alice", [], 9)]))]
    (wakeUp 17700000) [] _ _ rfl (by decide +kernel) (by decide +kernel) ?_
  intro push member attempts
  have extending : ∀ push ∈ producing.pushes plugin (wakeUp 8600000 ::
      ([.call .nothing (.pushBlock (Entry.block ("bob", [], 12) [("alice", [], 9)]))] ++
        [wakeUp 17700000])) (producing.run plugin [wakeUp 2000000] start),
      Database.attemptsSwitch push.block push.database.clearPending = false := by
    decide +kernel
  rw [extending push member] at attempts
  cases attempts

end SlotChain

end DeipChain.Chain
