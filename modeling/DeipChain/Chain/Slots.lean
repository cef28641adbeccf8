import DeipChain.Chain.Production
import DeipChain.Chain.ScheduleRounds

/-!
# Slots

Slots are numbered from the head of the chain. Their times are multiples of the interval, except
before the first block, when they count from the time of genesis. The number of a slot and its time
determine each other. Along a chain `current_aslot` counts slots: a block adds the number of its
slot, which is by how many intervals it is behind the block before it.
-/
namespace DeipChain.WitnessSchedule

open Result

variable {Key : Type}

/-! ## Times and numbers of slots -/

/-- The time of a slot in seconds, as an exact number. -/
def slotTime (slot headBlockNum time : Nat) : Nat :=
  if slot = 0 then 0
  else if headBlockNum = 0 then time + slot * blockInterval
  else time / blockInterval * blockInterval + slot * blockInterval

theorem State.getSlotTime_eq (slot : Nat) (state : State Key) :
    state.getSlotTime slot = slotTime slot state.headBlockNum state.time := rfl

/-- Where it fits in 32 bits, the time of a slot is exact. -/
theorem getSlotTime_fits {Id : Type} {slot time : Nat} {core : Chain.Core Id}
    (fits : slotTime slot core.headBlockNumber time < Chain.secondsRange) :
    Chain.getSlotTime slot core time = slotTime slot core.headBlockNumber time := by
  rw [slotTime] at fits ⊢
  rw [Chain.getSlotTime]
  by_cases none : slot = 0
  · rw [if_pos none, if_pos none]
  · rw [if_neg none] at fits ⊢
    rw [if_neg none]
    by_cases first : core.headBlockNumber = 0
    · rw [if_pos first] at fits ⊢
      rw [if_pos first, Nat.mod_eq_of_lt fits]
    · rw [if_neg first] at fits ⊢
      rw [if_neg first, Nat.mod_eq_of_lt fits]

/-- Each slot is an interval behind the one before it. -/
theorem slotTime_succ (slot headBlockNum time : Nat) :
    slotTime (slot + 1) headBlockNum time =
      slotTime 1 headBlockNum time + slot * blockInterval := by
  rw [slotTime, slotTime, if_neg (Nat.succ_ne_zero slot), if_neg Nat.one_ne_zero]
  have step : (slot + 1) * blockInterval = 1 * blockInterval + slot * blockInterval := by
    rw [← Nat.add_mul, Nat.add_comm]
  rw [step]
  by_cases first : headBlockNum = 0
  · rw [if_pos first, if_pos first, Nat.add_assoc]
  · rw [if_neg first, if_neg first, Nat.add_assoc]

/-- The slot at a time is known by the time of the first slot. -/
def slotAtTime (due headBlockNum time : Nat) : Nat :=
  if due < slotTime 1 headBlockNum time then 0
  else (due - slotTime 1 headBlockNum time) / blockInterval + 1

theorem State.getSlotAtTime_eq (due : Nat) (state : State Key) :
    state.getSlotAtTime due = slotAtTime due state.headBlockNum state.time := rfl

theorem getSlotAtTime_fits {Id : Type} {due time : Nat} {core : Chain.Core Id}
    (fits : slotTime 1 core.headBlockNumber time < Chain.secondsRange) :
    Chain.getSlotAtTime due core time = slotAtTime due core.headBlockNumber time := by
  rw [Chain.getSlotAtTime, getSlotTime_fits fits, slotAtTime]

theorem slotAtTime_slotTime {slot : Nat} (positive : 0 < slot) (headBlockNum time : Nat) :
    slotAtTime (slotTime slot headBlockNum time) headBlockNum time = slot := by
  obtain ⟨before, rfl⟩ : ∃ before, slot = before + 1 := ⟨slot - 1, by omega⟩
  have interval : 0 < blockInterval := by decide
  have due := slotTime_succ before headBlockNum time
  rw [slotAtTime, due, if_neg (by omega), Nat.add_sub_cancel_left, Nat.mul_div_cancel _ interval]

/-- A time is in the slot that begins last before it. -/
theorem slotTime_slotAtTime {due headBlockNum time : Nat}
    (begun : slotTime 1 headBlockNum time ≤ due) :
    slotTime (slotAtTime due headBlockNum time) headBlockNum time ≤ due ∧
      due < slotTime (slotAtTime due headBlockNum time + 1) headBlockNum time := by
  rw [slotAtTime, if_neg (Nat.not_lt.mpr begun)]
  have starts := slotTime_succ ((due - slotTime 1 headBlockNum time) / blockInterval)
    headBlockNum time
  have ends := slotTime_succ ((due - slotTime 1 headBlockNum time) / blockInterval + 1)
    headBlockNum time
  rw [starts, ends, blockInterval]
  omega

/-! ## Slots along a chain -/

/-- The number of intervals since the epoch. -/
def absoluteSlot (time : Nat) : Nat := time / blockInterval

/-- Behind the first block, the slot of a time counts the intervals between it and the head. -/
theorem slotAtTime_eq {due headBlockNum time : Nat} (some : headBlockNum ≠ 0)
    (later : 0 < slotAtTime due headBlockNum time) :
    absoluteSlot time + slotAtTime due headBlockNum time = absoluteSlot due := by
  rw [slotAtTime] at later ⊢
  by_cases early : due < slotTime 1 headBlockNum time
  · rw [if_pos early] at later
    cases later
  · rw [if_neg early]
    rw [slotTime, if_neg Nat.one_ne_zero, if_neg some, blockInterval] at early ⊢
    rw [absoluteSlot, absoluteSlot, blockInterval]
    omega

/-- No slot has begun at the time of the head. -/
theorem slotAtTime_head {headBlockNum : Nat} (some : headBlockNum ≠ 0) (time : Nat) :
    slotAtTime time headBlockNum time = 0 := by
  have later : time < slotTime 1 headBlockNum time := by
    rw [slotTime, if_neg Nat.one_ne_zero, if_neg some, blockInterval]
    omega
  rw [slotAtTime, if_pos later]

/-- The owner and the last slot of a witness. -/
def Witness.slotted (witness : Witness Key) : String × Nat := (witness.owner, witness.lastAslot)

/-- A step that moves neither the head nor the slot of a witness. -/
structure Unmoved (state next : State Key) : Prop where
  head : next.headBlockNum = state.headBlockNum
  time : next.time = state.time
  currentAslot : next.currentAslot = state.currentAslot
  witnesses : state.witnesses.map Witness.slotted <+: next.witnesses.map Witness.slotted

theorem Unmoved.refl (state : State Key) : Unmoved state state :=
  ⟨rfl, rfl, rfl, List.prefix_refl _⟩

theorem Unmoved.trans {state middle next : State Key} (first : Unmoved state middle)
    (second : Unmoved middle next) : Unmoved state next where
  head := second.head.trans first.head
  time := second.time.trans first.time
  currentAslot := second.currentAslot.trans first.currentAslot
  witnesses := first.witnesses.trans second.witnesses

theorem Unmoved.modify {change : Witness Key → Witness Key}
    (keeps : ∀ witness, (change witness).slotted = witness.slotted) (id : Nat) (state : State Key) :
    Unmoved state (state.modifyWitness id change) where
  head := rfl
  time := rfl
  currentAslot := rfl
  witnesses := by
    have same := modifyWitness_map keeps id state
    exact same ▸ List.prefix_refl _

/-- The last slot of a witness is found by its name. -/
theorem Unmoved.getWitness {state next : State Key} (unmoved : Unmoved state next) {name : String}
    {witness : Witness Key} (found : state.getWitness name = .ok witness) :
    ∃ later, next.getWitness name = .ok later ∧ later.lastAslot = witness.lastAslot := by
  have seen (rows : List (Witness Key)) :
      (rows.map Witness.slotted).find? (fun view => decide (view.1 = name)) =
        (rows.find? fun witness => decide (witness.owner = name)).map Witness.slotted :=
    List.find?_map
  obtain ⟨added, rows⟩ := unmoved.witnesses
  rw [State.getWitness, expect_ok_iff] at found
  have view : (next.witnesses.find? fun witness => decide (witness.owner = name)).map
      Witness.slotted = some witness.slotted := by
    rw [← seen, ← rows, List.find?_append, seen, found]
    rfl
  obtain ⟨later, among, same⟩ := Option.map_eq_some_iff.mp view
  exact ⟨later, by rw [State.getWitness, among]; rfl, congrArg Prod.snd same⟩

theorem foldlM_unmoved {A : Type} {step : State Key → A → Except ScheduleError (State Key)}
    (round : ∀ element state next, step state element = .ok next → Unmoved state next)
    {elements : List A} {state next : State Key} (ran : elements.foldlM step state = .ok next) :
    Unmoved state next :=
  foldlM_invariant (fun _ reached => Unmoved state reached)
    (fun element _ _ _ before stepped => before.trans (round element _ _ stepped))
    (.refl state) ran

theorem applyEvent_unmoved {event : Event Key} {state next : State Key}
    (ran : state.applyEvent event = .ok next) : Unmoved state next := by
  cases event with
  | witnessUpdate owner signingKey props =>
    rw [State.applyEvent, pure_ok_iff] at ran
    subst ran
    rw [State.witnessUpdate]
    split
    · apply Unmoved.modify
      exact fun _ => rfl
    · constructor
      · rfl
      · rfl
      · rfl
      · rw [List.map_append]
        exact List.prefix_append _ _
  | adjustWitnessVote owner delta total =>
    simp only [State.applyEvent, State.adjustWitnessVote, bind_ok_iff, pure_ok_iff] at ran
    obtain ⟨witness, -, _, -, _, -, rfl⟩ := ran
    apply Unmoved.modify
    exact fun _ => rfl
  | reportVersion owner version =>
    simp only [State.applyEvent, bind_ok_iff, pure_ok_iff] at ran
    obtain ⟨witness, -, rfl⟩ := ran
    apply Unmoved.modify
    exact fun _ => rfl
  | voteHardfork owner version at_ =>
    simp only [State.applyEvent, bind_ok_iff, pure_ok_iff] at ran
    obtain ⟨witness, -, rfl⟩ := ran
    apply Unmoved.modify
    exact fun _ => rfl

theorem missSlot_unmoved {block : Block Key} {state next : State Key} {slot : Nat}
    (ran : state.missSlot block slot = .ok next) : Unmoved state next := by
  rw [State.missSlot, bind_ok_iff] at ran
  obtain ⟨missed, -, ran⟩ := ran
  split at ran
  · rw [pure_ok_iff] at ran
    exact ran ▸ .refl state
  · rw [pure_ok_iff] at ran
    subst ran
    apply Unmoved.modify
    exact fun _ => rfl

theorem countVersions_slot {state next : State Key} (ran : state.countVersions = .ok next) :
    next.currentAslot = state.currentAslot := by
  simp only [State.countVersions, bind_ok_iff] at ran
  obtain ⟨scheduled, -, ran⟩ := ran
  split at ran
  · rw [pure_ok_iff] at ran
    exact ran ▸ rfl
  · rw [pure_ok_iff] at ran
    exact ran ▸ rfl

theorem updateMedianWitnessProps_slot {state next : State Key}
    (ran : state.updateMedianWitnessProps = .ok next) :
    next.currentAslot = state.currentAslot := by
  simp only [State.updateMedianWitnessProps, bind_ok_iff, pure_ok_iff] at ran
  obtain ⟨_, -, _, -, _, -, rfl⟩ := ran
  rfl

theorem reschedule_slot {state next : State Key} (ran : state.reschedule = .ok next) :
    next.currentAslot = state.currentAslot := by
  obtain ⟨result, advanced, timed, reset, -, counted, ran, updated⟩ := reschedule_ok_iff.mp ran
  obtain ⟨_, _, rfl⟩ := (timed_retimed advanced reset).rest
  have written := updateMedianWitnessProps_slot updated
  have same := countVersions_slot ran
  exact written.trans same

theorem updateWitnessSchedule_unmoved {state next : State Key}
    (ran : state.updateWitnessSchedule = .ok next) : Unmoved state next := by
  have unhurried := updateWitnessSchedule_unhurried ran
  constructor
  · exact unhurried.head
  · exact unhurried.time
  · rw [State.updateWitnessSchedule] at ran
    split at ran
    · exact reschedule_slot ran
    · exact Except.ok.inj ran ▸ rfl
  · have same := unhurried.views Witness.slotted (fun _ _ _ _ _ => rfl)
    exact same ▸ List.prefix_refl _

/-- A change of a witness that keeps its name is seen when it is looked up. -/
theorem getWitness_modify {state : State Key} {name : String} {witness : Witness Key}
    {change : Witness Key → Witness Key} (keeps : ∀ witness, (change witness).owner = witness.owner)
    (found : state.getWitness name = .ok witness) :
    (state.modifyWitness witness.id change).getWitness name = .ok (change witness) := by
  rw [getWitness_ok_iff] at found ⊢
  rw [State.modifyWitness, List.find?_map]
  have named : ((fun other : Witness Key => decide (other.owner = name)) ∘ fun other =>
      if other.id = witness.id then change other else other) =
        fun other => decide (other.owner = name) := by
    funext other
    rw [Function.comp_apply]
    split
    · rw [keeps]
    · rfl
  rw [named, found, Option.map_some, if_pos rfl]

/-- What a block does to the slots. -/
structure Placed (state : State Key) (block : Block Key) (next : State Key) : Prop where
  head : next.headBlockNum = state.headBlockNum + 1
  time : next.time = block.timestamp
  later : state.time < block.timestamp
  due : 0 < slotAtTime block.timestamp state.headBlockNum state.time
  aslot : next.currentAslot = state.currentAslot +
    (if state.time = 0 then 0
      else slotAtTime block.timestamp state.headBlockNum state.time - 1) + 1
  signed : ∃ witness, next.getWitness block.witness = .ok witness ∧
    witness.lastAslot = next.currentAslot

theorem updateSigningWitness_slot {block : Block Key} {state next : State Key}
    (begun : state.headBlockNum ≠ 0) (now : state.time = block.timestamp)
    (ran : state.updateSigningWitness block = .ok next) :
    next.headBlockNum = state.headBlockNum ∧ next.time = state.time ∧
      next.currentAslot = state.currentAslot ∧
      ∃ witness, next.getWitness block.witness = .ok witness ∧
        witness.lastAslot = next.currentAslot := by
  simp only [State.updateSigningWitness, bind_ok_iff, pure_ok_iff] at ran
  obtain ⟨witness, found, rfl⟩ := ran
  refine ⟨rfl, rfl, rfl, _, getWitness_modify ?_ found, ?_⟩
  · exact fun _ => rfl
  · -- The head is the block itself by now, so no slot is added a second time.
    dsimp only [State.modifyWitness]
    rw [State.getSlotAtTime_eq, now, slotAtTime_head begun, Nat.add_zero]

theorem applyBlock_placed {block : Block Key} {state next : State Key}
    (ran : state.applyBlock block = .ok next) : Placed state block next := by
  simp only [State.applyBlock, State.beforeSchedule, State.validateBlockHeader, bind_ok_iff,
    require_ok_iff, exists_const] at ran
  obtain ⟨ready, ⟨⟨later, _, -, due, -⟩, applied, transactions, headed, global, signed, signing,
    expired⟩, scheduled, updated, processes⟩ := ran
  have before := foldlM_unmoved (fun _ _ _ => applyEvent_unmoved) transactions
  have behind := ((foldlM_unmoved (fun _ _ _ => applyEvent_unmoved) expired).trans
    (updateWitnessSchedule_unmoved updated)).trans
      (foldlM_unmoved (fun _ _ _ => applyEvent_unmoved) processes)
  simp only [State.updateGlobalDynamicData, bind_ok_iff, pure_ok_iff] at global
  obtain ⟨slotted, missed, rfl⟩ := global
  have slots := foldlM_unmoved (fun _ _ _ => missSlot_unmoved) missed
  obtain ⟨head, time, aslot, witness, found, last⟩ :=
    updateSigningWitness_slot (Nat.succ_ne_zero _) rfl signing
  obtain ⟨row, among, same⟩ := behind.getWitness found
  constructor
  · rw [behind.head, head, before.head]
  · rw [behind.time, time]
  · exact later
  · rwa [State.getSlotAtTime_eq] at due
  · rw [behind.currentAslot, aslot, State.getSlotAtTime_eq, before.head, before.time,
      before.currentAslot]
  · exact ⟨row, among, by rw [same, last, behind.currentAslot]⟩

/-- Along a chain `current_aslot` moves on as far as the interval that the head is in. -/
theorem applyBlocks_slots {blocks : List (Block Key)} {state next : State Key}
    (begun : state.headBlockNum ≠ 0) (dated : state.time ≠ 0)
    (ran : blocks.foldlM State.applyBlock state = .ok next) :
    (next.headBlockNum ≠ 0 ∧ next.time ≠ 0) ∧
      state.currentAslot + absoluteSlot next.time =
        next.currentAslot + absoluteSlot state.time ∧
      absoluteSlot state.time + blocks.length ≤ absoluteSlot next.time := by
  induction blocks generalizing state with
  | nil =>
    rw [List.foldlM_nil, pure_ok_iff] at ran
    subst ran
    exact ⟨⟨begun, dated⟩, rfl, Nat.le_refl _⟩
  | cons block rest hypothesis =>
    rw [List.foldlM_cons, bind_ok_iff] at ran
    obtain ⟨middle, applied, ran⟩ := ran
    have placed := applyBlock_placed applied
    have head := placed.head
    have later := placed.later
    have due := placed.due
    have slot := slotAtTime_eq begun placed.due
    have aslot := placed.aslot
    rw [if_neg dated] at aslot
    rw [← placed.time] at later due slot aslot
    obtain ⟨after, counted, passed⟩ := hypothesis (by omega) (by omega) ran
    rw [List.length_cons]
    refine ⟨after, ?_, ?_⟩
    · omega
    · omega

/-- Where the times of the slots fit in 32 bits, the slot at the time of a slot is that slot, and
a time lies in the slot that is found for it. -/
structure Numbered {Id : Type} (core : Chain.Core Id) (time : Nat) : Prop where
  slot : ∀ slot, 1 ≤ slot → slotTime slot core.headBlockNumber time < Chain.secondsRange →
    Chain.getSlotAtTime (Chain.getSlotTime slot core time) core time = slot
  time : ∀ due, Chain.getSlotTime 1 core time ≤ due →
    slotTime (Chain.getSlotAtTime due core time + 1) core.headBlockNumber time <
      Chain.secondsRange →
    Chain.getSlotTime (Chain.getSlotAtTime due core time) core time ≤ due ∧
      due < Chain.getSlotTime (Chain.getSlotAtTime due core time + 1) core time

theorem numbered {Id : Type} (core : Chain.Core Id) (time : Nat) : Numbered core time := by
  constructor
  · intro slot positive fits
    obtain ⟨before, rfl⟩ : ∃ before, slot = before + 1 := ⟨slot - 1, by omega⟩
    have first : slotTime 1 core.headBlockNumber time < Chain.secondsRange := by
      rw [slotTime_succ] at fits
      omega
    rw [getSlotTime_fits fits, getSlotAtTime_fits first, slotAtTime_slotTime positive]
  · intro due begun fits
    have later := slotTime_succ (Chain.getSlotAtTime due core time) core.headBlockNumber time
    have first : slotTime 1 core.headBlockNumber time < Chain.secondsRange := by omega
    rw [getSlotTime_fits first] at begun
    rw [getSlotTime_fits fits]
    rw [getSlotAtTime_fits first] at fits ⊢
    obtain ⟨starts, ends⟩ := slotTime_slotAtTime begun
    rw [getSlotTime_fits (by omega)]
    exact ⟨starts, ends⟩

/-- The number of a slot and its time determine each other. From the first block of a chain on,
every block is in a later interval than the one before it, and `current_aslot` has grown by as much
as the interval of the head. The witness of the last block has been seen at `current_aslot`. -/
theorem run_slots {Id : Type} (core : Chain.Core Id) (time : Nat) {start state next : State Key}
    {earlier later : List (Block Key)} (begun : earlier ≠ [])
    (ran : earlier.foldlM State.applyBlock start = .ok state)
    (further : later.foldlM State.applyBlock state = .ok next) :
    Numbered core time ∧
      (later ≠ [] → absoluteSlot state.time < absoluteSlot next.time) ∧
      state.currentAslot ≤ next.currentAslot ∧
      next.currentAslot - state.currentAslot =
        absoluteSlot next.time - absoluteSlot state.time ∧
      ∃ witness, state.getWitness (earlier.getLast begun).witness = .ok witness ∧
        witness.lastAslot = state.currentAslot := by
  rw [← List.dropLast_append_getLast begun, List.foldlM_append, bind_ok_iff] at ran
  obtain ⟨before, -, ran⟩ := ran
  rw [List.foldlM_cons, bind_ok_iff] at ran
  obtain ⟨reached, applied, ran⟩ := ran
  rw [List.foldlM_nil, pure_ok_iff] at ran
  subst ran
  have placed := applyBlock_placed applied
  have head := placed.head
  have dated := placed.later
  rw [← placed.time] at dated
  obtain ⟨-, counted, passed⟩ := applyBlocks_slots (by omega) (by omega) further
  refine ⟨numbered core time, ?_, by omega, by omega, placed.signed⟩
  intro some
  have length := List.length_pos_iff.mpr some
  omega

namespace TwoWitnesses

/-- Two blocks of a chain with two witnesses, the second of them seven slots behind the first. -/
theorem blocks_placed :
    ∃ start state next : State Nat,
      genesis 300 props [("alice", some 1), ("bob", some 2)] = .ok start ∧
      [block [] 1].foldlM State.applyBlock start = .ok state ∧
      [block [] 8].foldlM State.applyBlock state = .ok next ∧
      absoluteSlot state.time < absoluteSlot next.time ∧
      next.currentAslot - state.currentAslot = 7 := by
  obtain ⟨start, founded, _⟩ := exists_ok_of_any
    (genesis 300 props [("alice", some 1), ("bob", some 2)])
    (fun start => (do
      let state ← [block [] 1].foldlM State.applyBlock start
      let next ← [block [] 8].foldlM State.applyBlock state
      pure (state, next)).toOption.any (fun states : State Nat × State Nat =>
        states.1.time = 303 && states.2.time = 324))
    (by decide +kernel)
  obtain ⟨⟨state, next⟩, reached, times⟩ := exists_ok_of_any _ _ ‹_›
  simp only [bind_ok_iff, pure_ok_iff, Prod.mk.injEq] at reached
  obtain ⟨_, ran, _, further, rfl, rfl⟩ := reached
  simp only [Bool.and_eq_true, decide_eq_true_eq] at times
  obtain ⟨-, later, -, counted, -⟩ :=
    run_slots (⟨1, (), 0, ∅, ∅⟩ : Chain.Core Unit) 303 (by simp) ran further
  rw [times.1, times.2] at counted
  exact ⟨start, _, _, founded, ran, further, later (by simp), counted⟩

end TwoWitnesses

end DeipChain.WitnessSchedule
