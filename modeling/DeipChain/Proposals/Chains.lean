import DeipChain.Proposals.Stores

/-!
# Chains of blocks

A block applies its transactions, moves the head, and then goes through the proposals that have
expired. What the operations, the executions and these steps keep holds after every chain with
any pending transactions; first of all that the table of proposals is sound.
-/
namespace DeipChain.Proposals

open Outcome

variable {Payload Rest : Type} {evaluators : Evaluators Payload Rest} {push : Push Payload Rest}


/-- What the sweep over the expired proposals needs besides: its proposals can be executed
and be removed. -/
structure Swept (evaluators : Evaluators Payload Rest) (holds : Database Payload Rest → Prop)
    (fits : Database Payload Rest → Proposal Payload → Prop) : Prop
    extends Carried evaluators holds fits where
  due : ∀ proposal database, holds database → database.executing = [] →
    database.store.firstToExpire = some proposal →
      proposal.expirationTime ≤ database.store.headBlockTime → fits database proposal
  remove : ∀ id currentProposedTrx database, holds database → database.executing = [] →
    holds { database with
      currentProposedTrx := currentProposedTrx
      store := database.store.removeProposal id }

/-- What the rest of a block and of a node needs. -/
structure Lasting (evaluators : Evaluators Payload Rest) (holds : Database Payload Rest → Prop)
    (fits : Database Payload Rest → Proposal Payload → Prop) : Prop
    extends Swept evaluators holds fits where
  refer : ∀ reference database, holds database →
    holds { database with currentTrxReference := reference }
  advance : ∀ block database, holds database → database.executing = [] →
    database.store.headBlockTime < block.timestamp → holds { database with store := database.store.advance evaluators block }
  rest : ∀ rest database, holds database →
    holds { database with store := { database.store with rest := rest } }
  recover : ∀ database failed, holds database → holds failed →
    failed.executing = database.executing → holds { failed with store := database.store }

section Lasting

variable {holds : Database Payload Rest → Prop} {fits : Database Payload Rest → Proposal Payload → Prop}

theorem clearExpiredProposals_extends (evaluators : Evaluators Payload Rest) (rounds : Nat)
    (database : Database Payload Rest) :
    Extends database (database.clearExpiredProposals evaluators rounds) := by
  induction rounds generalizing database with
  | zero => exact ⟨List.prefix_rfl, trivial⟩
  | succ rounds hypothesis =>
    rw [Database.clearExpiredProposals]
    split
    · exact Extends.refl database
    · rename_i proposal _
      split
      · split
        · have ran := pushProposal_extends evaluators maxNesting database proposal
          split
          · rename_i done result
            rw [result] at ran
            exact ran.andThen (fun next => hypothesis next)
          · rename_i error failed result
            rw [result] at ran
            have later := hypothesis { failed with
              currentProposedTrx := none
              store := failed.store.removeProposal proposal.id }
            exact ⟨ran.trace.trans later.trace,
              later.executing.mono (fun _ same => same.trans ran.executing)⟩
          · rename_i failed result
            rw [result] at ran
            exact ran
          · rename_i failed result
            rw [result] at ran
            exact ran
        · exact (hypothesis { database with
            store := database.store.removeProposal proposal.id }).alter rfl rfl
      · exact Extends.refl database

theorem applyTransaction_extends (evaluators : Evaluators Payload Rest)
    (database : Database Payload Rest) (trx : Transaction Payload) :
    Extends database (database.applyTransaction evaluators trx) := by
  rw [Database.applyTransaction]
  split
  · exact ⟨List.prefix_rfl, rfl⟩
  · have ran : Extends database _ := (applyOperations_extends evaluators
      (pushProposal_extends evaluators maxNesting) trx.operations
      { database with currentTrxReference := trx.reference }).alter rfl rfl
    exact ran.andThen (fun done => ⟨List.prefix_rfl, rfl⟩)

theorem applyBlock_extends (evaluators : Evaluators Payload Rest) (database : Database Payload Rest)
    (block : Block Payload) : Extends database (database.applyBlock evaluators block) := by
  rw [Database.applyBlock]
  split
  · refine (each_extends (fun _ => applyTransaction_extends evaluators) block.transactions
      database).andThen (fun applied => ?_)
    have ran : Extends applied _ := (clearExpiredProposals_extends evaluators
      ((applied.store.advance evaluators block).proposals.length + 1)
      { applied with store := applied.store.advance evaluators block }).alter rfl rfl
    exact ran.andThen (fun cleared => ⟨List.prefix_rfl, rfl⟩)
  · exact ⟨List.prefix_rfl, rfl⟩

theorem recover_extends {database : Database Payload Rest} {outcome : Result Payload Rest}
    (extended : Extends database outcome) : Extends database (database.recover outcome) := by
  cases outcome with
  | returned done => exact extended
  | thrown error failed => exact ⟨extended.trace, extended.executing⟩
  | undefined => exact extended
  | unfinished => exact extended

theorem chain_extends (evaluators : Evaluators Payload Rest) (database : Database Payload Rest)
    (blocks : List (Block Payload)) (pending : List (Transaction Payload)) :
    Extends database (chain evaluators database blocks pending) := by
  refine (each_extends (fun _ => applyBlock_extends evaluators) blocks database).andThen ?_
  intro head
  exact each_extends (fun _ state trx => recover_extends (applyTransaction_extends evaluators state trx))
    pending head

theorem Swept.cleared (swept : Swept evaluators holds fits) (rounds : Nat)
    {database : Database Payload Rest} (held : holds database) (idle : database.executing = []) :
    (database.clearExpiredProposals evaluators rounds).Ends holds := by
  induction rounds generalizing database with
  | zero => trivial
  | succ rounds hypothesis =>
    rw [Database.clearExpiredProposals]
    split
    · exact held
    · rename_i proposal first
      split
      · rename_i due
        split
        · have ran := swept.pushed maxNesting database proposal held
            (swept.due proposal database held idle first due)
          have nested := (pushProposal_extends evaluators maxNesting database proposal).executing
          split
          · rename_i done result
            rw [result] at ran nested
            exact hypothesis ran (nested.trans idle)
          · rename_i error failed result
            rw [result] at ran nested
            exact hypothesis (swept.remove _ _ failed ran (nested.trans idle)) (nested.trans idle)
          · trivial
          · trivial
        · exact hypothesis (swept.remove _ _ database held idle) idle
      · exact held

theorem Lasting.transaction (lasting : Lasting evaluators holds fits)
    {database : Database Payload Rest} (trx : Transaction Payload) (held : holds database) :
    (database.applyTransaction evaluators trx).Ends holds := by
  have opened := lasting.refer trx.reference database held
  rw [Database.applyTransaction]
  split
  · exact opened
  · exact Ends.andThen (lasting.operations (lasting.pushed maxNesting) trx.operations opened)
      (fun _ still => still) (fun done still => lasting.refer ⟨0, 0⟩ done still)

theorem applyTransaction_time (evaluators : Evaluators Payload Rest)
    (database : Database Payload Rest) (trx : Transaction Payload) :
    (database.applyTransaction evaluators trx).Ends
      (fun after => after.store.headBlockTime = database.store.headBlockTime) := by
  have carried := time_carried evaluators database.store.headBlockTime
  rw [Database.applyTransaction]
  split
  · rfl
  · refine Ends.andThen (carried.operations (carried.pushed maxNesting) trx.operations rfl) ?_ ?_
    · exact fun _ same => same
    · exact fun _ same => same

theorem applyTransactions_time (evaluators : Evaluators Payload Rest)
    (transactions : List (Transaction Payload)) (database : Database Payload Rest) :
    (each (fun _ => Database.applyTransaction evaluators) database transactions).Ends
      (fun after => after.store.headBlockTime = database.store.headBlockTime) := by
  refine each_ends ?_ rfl
  intro _ trx state same
  exact (applyTransaction_time evaluators state trx).mono (fun _ still => still.trans same)

theorem Lasting.block (lasting : Lasting evaluators holds fits) {database : Database Payload Rest}
    (block : Block Payload) (held : holds database) (idle : database.executing = []) :
    (database.applyBlock evaluators block).Ends holds := by
  rw [Database.applyBlock]
  split
  · rename_i later
    have nested := (each_extends (fun _ => applyTransaction_extends evaluators) block.transactions
      database).executing
    have time := applyTransactions_time evaluators block.transactions database
    have applied := ((each_ends (fun _ trx _ => lasting.transaction trx) held).and nested).and time
    refine Ends.andThen applied (fun _ still => still.1.1) ?_
    rintro after ⟨⟨still, same⟩, now⟩
    have advanced := lasting.advance block after still (same.trans idle) (now ▸ later)
    exact Ends.andThen (lasting.cleared _ advanced (same.trans idle)) (fun _ kept => kept)
      (fun cleared kept => lasting.rest _ cleared kept)
  · exact held

theorem Lasting.recovered (lasting : Lasting evaluators holds fits)
    {database : Database Payload Rest} {outcome : Result Payload Rest} (held : holds database)
    (ends : outcome.Ends holds)
    (nested : outcome.Ends (fun after => after.executing = database.executing)) :
    (database.recover outcome).Ends holds := by
  cases outcome with
  | returned done => exact ends
  | thrown error failed => exact lasting.recover database failed held ends nested
  | undefined => trivial
  | unfinished => trivial

/-- Every chain keeps what its parts keep. -/
theorem Lasting.chained (lasting : Lasting evaluators holds fits) {database : Database Payload Rest}
    (blocks : List (Block Payload)) (pending : List (Transaction Payload)) (held : holds database)
    (idle : database.executing = []) : (chain evaluators database blocks pending).Ends holds := by
  have heads : (each (fun _ => Database.applyBlock evaluators) database blocks).Ends
      (fun state => holds state ∧ state.executing = []) := by
    refine each_ends ?_ ⟨held, idle⟩
    rintro _ block state ⟨still, none⟩
    refine ((lasting.block block still none).and (applyBlock_extends evaluators state
      block).executing).mono ?_
    exact fun after both => ⟨both.1, both.2.trans none⟩
  refine Ends.andThen heads (fun _ both => both.1) ?_
  rintro head ⟨still, -⟩
  refine each_ends ?_ still
  intro _ trx state here
  exact lasting.recovered here (lasting.transaction trx here)
    (applyTransaction_extends evaluators state trx).executing

end Lasting

/-!
## The table of proposals
-/

theorem firstToExpire_mem {store : Store Payload Rest} {proposal : Proposal Payload}
    (first : store.firstToExpire = some proposal) : proposal ∈ store.proposals := by
  rw [Store.firstToExpire] at first
  exact (List.mem_insertionSort _).mp (List.mem_of_mem_head? first)

theorem sound_lasting (evaluators : Evaluators Payload Rest) :
    Lasting evaluators Sound (fun database proposal => database.store.Lists proposal) where
  toCarried := sound_carried evaluators
  due proposal _ _ _ first _ := ⟨proposal, firstToExpire_mem first, rfl, rfl⟩
  remove id current database sound idle := by
    have outside : id ∉ database.executing.map Proposal.id := by
      rw [idle]
      exact List.not_mem_nil
    exact (sound.remove outside).same rfl rfl rfl rfl
  refer _ _ sound := sound.same rfl rfl rfl rfl
  advance _ _ sound _ _ := sound.same rfl rfl rfl rfl
  rest _ _ sound := sound.same rfl rfl rfl rfl
  recover _ _ sound _ nested := sound.same rfl rfl rfl nested

/-- A database between calls. -/
def Store.alone (store : Store Payload Rest) : Database Payload Rest :=
  { store := store
    currentTrxReference := ⟨0, 0⟩
    currentProposedTrx := none
    executing := []
    trace := [] }

theorem initGenesisProposal_sound {store next : Store Payload Rest} {genesis : GenesisProposal Payload}
    (sound : Sound store.alone) (ran : store.initGenesisProposal evaluators genesis = .ok next) :
    Sound next.alone ∧ next.effects = store.effects ∧ next.executed = store.executed := by
  simp only [Store.initGenesisProposal, Result.bind_ok_iff, Result.pure_ok_iff] at ran
  obtain ⟨_, -, created, made, rfl⟩ := ran
  obtain ⟨proposal, fresh, unnamed, -, rfl⟩ := Store.createProposal_ok made
  have begun : Sound (Store.alone { store with
      nextProposal := store.nextProposal + 1
      proposals := store.proposals ++ [proposal]
      recentEntities := store.recentEntities ++
        [{ externalId := genesis.externalId, reference := ⟨0, 0⟩, createdAt := store.headBlockTime }] }) :=
    sound.create fresh unnamed rfl rfl rfl rfl
  exact ⟨begun.modify _ _ (fun _ => rfl) (fun _ => rfl), rfl, rfl⟩

theorem genesis_sound {time : Nat} {recentEntities : List RecentEntity}
    {entities : List (EntityKind × String)} {rest : Rest} {proposals : List (GenesisProposal Payload)}
    {start : Database Payload Rest}
    (began : genesis evaluators time recentEntities entities rest proposals = .ok start) :
    Sound start ∧ start = start.store.alone ∧ start.store.effects = [] ∧
      start.store.executed = [] := by
  simp only [genesis, Result.bind_ok_iff, Result.pure_ok_iff] at began
  obtain ⟨store, filled, rfl⟩ := began
  have kept := Result.foldlM_invariant (fun _ reached => Sound reached.alone ∧
    reached.effects = [] ∧ reached.executed = []) ?_ ⟨?_, rfl, rfl⟩ filled
  · exact ⟨kept.1, rfl, kept.2⟩
  · rintro genesis _ reached next ⟨sound, effects, executed⟩ stepped
    obtain ⟨still, sameEffects, sameExecuted⟩ := initGenesisProposal_sound sound stepped
    exact ⟨still, sameEffects.trans effects, sameExecuted.trans executed⟩
  · refine ⟨List.nodup_nil, List.nodup_nil, ?_, ?_, List.nodup_nil, ?_⟩
    · exact fun _ member => absurd member List.not_mem_nil
    · exact fun _ member => absurd member List.not_mem_nil
    · exact fun _ member => absurd member List.not_mem_nil

end DeipChain.Proposals
