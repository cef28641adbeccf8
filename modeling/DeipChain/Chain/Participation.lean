import DeipChain.Chain.Slots

/-!
# Participation

The chain remembers for 128 slots whether they were filled, one bit each, and the number of the
filled ones. Behind a missed slot a block enters the window only when the next block is there: the
loop shifts in a filled slot first, which is the slot of the head, and then the missed ones. So the
window ends just before the slot of the head.
-/
namespace DeipChain.WitnessSchedule

open Result

variable {Key : Type}

/-- The fields of `dynamic_global_property_object` about recent slots. -/
structure RecentSlots where
  recentSlotsFilled : BitVec 128
  participationCount : UInt8

/-- `init_genesis_global_property_object` -/
def RecentSlots.genesis : RecentSlots :=
  { recentSlotsFilled := BitVec.allOnes 128
    participationCount := 128 }

/-- A round of the loop over the missed slots and the produced one. -/
def RecentSlots.round (slots : RecentSlots) (i : Nat) : RecentSlots :=
  let count := slots.participationCount - if slots.recentSlotsFilled.msb then 1 else 0
  { recentSlotsFilled := (slots.recentSlotsFilled <<< 1) + if i = 0 then 1 else 0
    participationCount := count + if i = 0 then 1 else 0 }

/-- The loop of `update_global_dynamic_data` over the slots. -/
def RecentSlots.advance (missedBlocks : Nat) (slots : RecentSlots) : RecentSlots :=
  (List.range (missedBlocks + 1)).foldl RecentSlots.round slots

/-- The witnesses with the record of the slots. -/
structure SlotState (Key : Type) where
  rounds : State Key
  slots : RecentSlots

/-- The slots that were missed before a block. -/
def State.missedBlocks (block : Block Key) (state : State Key) : Nat :=
  if state.time = 0 then 0 else state.getSlotAtTime block.timestamp - 1

/-- `update_global_dynamic_data` -/
def SlotState.updateGlobalDynamicData (block : Block Key) (chain : SlotState Key) :
    Except ScheduleError (SlotState Key) := do
  let missedBlocks := chain.rounds.missedBlocks block
  let headed ← chain.rounds.updateGlobalDynamicData block
  pure { rounds := headed, slots := chain.slots.advance missedBlocks }

/-- `_apply_block` -/
def SlotState.applyBlock (chain : SlotState Key) (block : Block Key) :
    Except ScheduleError (SlotState Key) := do
  chain.rounds.validateBlockHeader block
  let applied ← block.transactions.foldlM State.applyEvent chain.rounds
  let headed ← SlotState.updateGlobalDynamicData block { chain with rounds := applied }
  let signed ← headed.rounds.updateSigningWitness block
  let expired ← block.expired.foldlM State.applyEvent signed
  let scheduled ← expired.updateWitnessSchedule
  let processed ← block.processes.foldlM State.applyEvent scheduled
  pure { headed with rounds := processed }

/-- The record has no part in what happens to the witnesses. -/
theorem SlotState.applyBlock_rounds {chain next : SlotState Key} {block : Block Key}
    (ran : chain.applyBlock block = .ok next) :
    chain.rounds.applyBlock block = .ok next.rounds ∧
      next.slots = chain.slots.advance (chain.rounds.missedBlocks block) := by
  simp only [SlotState.applyBlock, SlotState.updateGlobalDynamicData, bind_ok_iff,
    pure_ok_iff] at ran
  obtain ⟨_, valid, applied, transactions, _, ⟨headed, global, rfl⟩, signed, signing, ready,
    expired, scheduled, updated, processed, processes, rfl⟩ := ran
  have before := foldlM_unmoved (fun _ _ _ => applyEvent_unmoved) transactions
  constructor
  · simp only [State.applyBlock, State.beforeSchedule, bind_ok_iff]
    exact ⟨ready, ⟨_, valid, applied, transactions, headed, global, signed, signing, expired⟩,
      scheduled, updated, processes⟩
  · rw [State.missedBlocks, State.missedBlocks, State.getSlotAtTime_eq, State.getSlotAtTime_eq,
      before.head, before.time]

/-! ## Bits and their number -/

/-- `popcount` -/
def ones (bits : BitVec 128) : Nat := (List.range 128).countP bits.getLsbD

theorem getLsbD_round (slots : RecentSlots) (i place : Nat) :
    (slots.round i).recentSlotsFilled.getLsbD place =
      (decide (place < 128) &&
        if place = 0 then decide (i = 0) else slots.recentSlotsFilled.getLsbD (place - 1)) := by
  have apart : slots.recentSlotsFilled <<< 1 &&& (if i = 0 then 1 else 0) = 0 := by
    ext bit inside
    by_cases last : bit = 0
    · simp [last]
    · split <;> simp [last]
  rw [RecentSlots.round]
  dsimp only
  rw [BitVec.add_eq_or_of_and_eq_zero _ _ apart]
  by_cases last : place = 0
  · by_cases first : i = 0 <;> simp [last, first]
  · by_cases first : i = 0 <;> simp [last, first]

/-- A round forgets the oldest bit and adds a new one. -/
theorem ones_round (slots : RecentSlots) (i : Nat) :
    ones (slots.round i).recentSlotsFilled + (if slots.recentSlotsFilled.msb then 1 else 0) =
      ones slots.recentSlotsFilled + if i = 0 then 1 else 0 := by
  have newest : (List.range 128).countP (slots.round i).recentSlotsFilled.getLsbD =
      (List.range 127).countP slots.recentSlotsFilled.getLsbD + if i = 0 then 1 else 0 := by
    rw [List.range_succ_eq_map, List.countP_cons, List.countP_map, getLsbD_round]
    congr 1
    · apply List.countP_congr
      intro place inside
      rw [List.mem_range] at inside
      rw [Function.comp_apply, getLsbD_round]
      simp
      omega
    · simp
  have oldest : (List.range 128).countP slots.recentSlotsFilled.getLsbD =
      (List.range 127).countP slots.recentSlotsFilled.getLsbD +
        if slots.recentSlotsFilled.msb then 1 else 0 := by
    rw [List.range_succ, List.countP_append, BitVec.msb_eq_getLsbD_last, List.countP_singleton]
  rw [ones, ones, newest, oldest]
  omega

theorem ones_le (bits : BitVec 128) : ones bits ≤ 128 := by
  have bound : (List.range 128).countP bits.getLsbD ≤ (List.range 128).length :=
    List.countP_le_length
  rwa [List.length_range] at bound

/-- The count is the number of bits. -/
def RecentSlots.Counted (slots : RecentSlots) : Prop :=
  slots.participationCount.toNat = ones slots.recentSlotsFilled

theorem toNat_moved {count : UInt8} {oldest : Prop} (newest : Prop) [Decidable oldest]
    [Decidable newest] (bound : count.toNat ≤ 128) (counted : oldest → 1 ≤ count.toNat) :
    ((count - if oldest then 1 else 0) + if newest then 1 else 0).toNat =
      (count.toNat - if oldest then 1 else 0) + if newest then 1 else 0 := by
  rw [UInt8.toNat_add, UInt8.toNat_sub]
  by_cases old : oldest
  · have one := counted old
    by_cases new : newest
    · simp only [if_pos old, if_pos new, UInt8.reduceToNat]
      omega
    · simp only [if_pos old, if_neg new, UInt8.reduceToNat]
      omega
  · by_cases new : newest
    · simp only [if_neg old, if_pos new, UInt8.reduceToNat]
      omega
    · simp only [if_neg old, if_neg new, UInt8.reduceToNat]
      omega

theorem RecentSlots.Counted.round {slots : RecentSlots} (counted : slots.Counted) (i : Nat) :
    (slots.round i).Counted := by
  have number := ones_round slots i
  have bound := ones_le slots.recentSlotsFilled
  rw [RecentSlots.Counted] at counted ⊢
  have some : slots.recentSlotsFilled.msb = true → 1 ≤ slots.participationCount.toNat := by
    intro oldest
    rw [counted]
    apply List.countP_pos_iff.mpr
    exact ⟨127, by decide, by rw [← oldest, BitVec.msb_eq_getLsbD_last]⟩
  have moved : (slots.round i).participationCount.toNat = _ :=
    toNat_moved (i = 0) (counted.trans_le bound) some
  have forgotten : (if slots.recentSlotsFilled.msb then 1 else 0) ≤
      ones slots.recentSlotsFilled := by
    split
    · exact counted ▸ some ‹_›
    · exact Nat.zero_le _
  rw [moved, counted]
  omega

theorem RecentSlots.advance_succ (missedBlocks : Nat) (slots : RecentSlots) :
    slots.advance (missedBlocks + 1) = (slots.advance missedBlocks).round (missedBlocks + 1) := by
  rw [RecentSlots.advance, List.range_succ, List.foldl_append]
  rfl

theorem RecentSlots.Counted.advance {slots : RecentSlots} (counted : slots.Counted)
    (missedBlocks : Nat) : (slots.advance missedBlocks).Counted := by
  induction missedBlocks with
  | zero => exact counted.round 0
  | succ missedBlocks hypothesis =>
    rw [RecentSlots.advance_succ]
    exact hypothesis.round _

/-- The slots since the last head: the missed ones, and before them that head. -/
theorem getLsbD_advance (slots : RecentSlots) (missedBlocks place : Nat) :
    (slots.advance missedBlocks).recentSlotsFilled.getLsbD place =
      (decide (place < 128) && (decide (place = missedBlocks) ||
        decide (missedBlocks < place) &&
          slots.recentSlotsFilled.getLsbD (place - missedBlocks - 1))) := by
  induction missedBlocks generalizing place with
  | zero =>
    change (slots.round 0).recentSlotsFilled.getLsbD place = _
    rw [getLsbD_round]
    by_cases last : place = 0
    · simp [last]
    · simp [last, Nat.pos_of_ne_zero last]
  | succ missedBlocks hypothesis =>
    rw [RecentSlots.advance_succ, getLsbD_round]
    by_cases last : place = 0
    · simp [last]
    · rw [if_neg last, hypothesis]
      obtain ⟨before, rfl⟩ : ∃ before, place = before + 1 := ⟨place - 1, by omega⟩
      simp only [Nat.add_sub_cancel, Nat.add_right_cancel_iff, Nat.add_lt_add_iff_right,
        Nat.add_sub_add_right]
      by_cases inside : before + 1 < 128
      · have within : before < 128 := by omega
        simp [inside, within]
      · simp [inside]

/-! ## Filled slots -/

/-- A block has been produced in a slot, or the slot is before the first one of the chain. -/
def filled (produced : List Nat) (slot : Nat) : Bool := slot = 0 || produced.contains slot

/-- The record tells which of the 128 slots up to a newest one were filled. -/
structure Window (produced : List Nat) (newest : Nat) (slots : RecentSlots) : Prop where
  popcount : slots.participationCount.toNat = ones slots.recentSlotsFilled
  count : slots.participationCount.toNat =
    (List.range 128).countP fun place => filled produced (newest - place)
  bits : ∀ place < 128,
    slots.recentSlotsFilled.getLsbD place = filled produced (newest - place)

theorem Window.of_bits {produced : List Nat} {newest : Nat} {slots : RecentSlots}
    (counted : slots.Counted) (bits : ∀ place < 128,
      slots.recentSlotsFilled.getLsbD place = filled produced (newest - place)) :
    Window produced newest slots := by
  constructor
  · exact counted
  · rw [counted]
    apply List.countP_congr
    intro place inside
    rw [bits place (List.mem_range.mp inside)]
  · exact bits

/-- The chains from a start, with the slots in which their blocks were produced. -/
inductive Produced (start : SlotState Key) : List Nat → SlotState Key → Prop where
  | start : Produced start [] start
  | block {produced : List Nat} {chain next : SlotState Key} (block : Block Key)
      (before : Produced start produced chain) (applied : chain.applyBlock block = .ok next) :
      Produced start (next.rounds.currentAslot :: produced) next

/-- What holds of the record behind every block. -/
structure Recorded (produced : List Nat) (chain : SlotState Key) : Prop where
  head : filled produced chain.rounds.currentAslot = true
  past : ∀ slot ∈ produced, slot ≤ chain.rounds.currentAslot
  window : Window produced (chain.rounds.currentAslot - 1) chain.slots

theorem filled_cons {produced : List Nat} {slot other : Nat} (apart : other ≠ slot) :
    filled (slot :: produced) other = filled produced other := by
  rw [filled, filled, List.contains_cons, beq_false_of_ne apart, Bool.false_or]

theorem Recorded.block {produced : List Nat} {chain next : SlotState Key} {block : Block Key}
    (recorded : Recorded produced chain) (ran : chain.applyBlock block = .ok next) :
    Recorded (next.rounds.currentAslot :: produced) next := by
  obtain ⟨applied, slots⟩ := SlotState.applyBlock_rounds ran
  have aslot : next.rounds.currentAslot =
      chain.rounds.currentAslot + chain.rounds.missedBlocks block + 1 :=
    (applyBlock_placed applied).aslot
  have missed (slot : Nat) (later : chain.rounds.currentAslot < slot) :
      filled produced slot = false := by
    have unknown : slot ∉ produced := fun member =>
      absurd (recorded.past slot member) (Nat.not_le.mpr later)
    rw [filled, List.contains_eq_mem, decide_eq_false unknown, Bool.or_false]
    exact decide_eq_false (by omega)
  constructor
  · rw [filled, List.contains_cons, beq_self_eq_true, Bool.true_or, Bool.or_true]
  · intro slot member
    rcases List.mem_cons.mp member with rfl | old
    · exact Nat.le_refl _
    · have past := recorded.past slot old
      omega
  · apply Window.of_bits
    · rw [slots]
      exact RecentSlots.Counted.advance recorded.window.popcount _
    · intro place inside
      rw [filled_cons (by omega), slots, getLsbD_advance, decide_eq_true inside, Bool.true_and]
      rcases Nat.lt_trichotomy place (chain.rounds.missedBlocks block) with new | same | old
      · -- a missed slot behind the last head
        rw [decide_eq_false (by omega), decide_eq_false (by omega), Bool.false_and, Bool.or_false,
          missed _ (by omega)]
      · -- the slot of the last head
        have slot : next.rounds.currentAslot - 1 - place = chain.rounds.currentAslot := by omega
        rw [decide_eq_true same, Bool.true_or, slot, recorded.head]
      · have slot : next.rounds.currentAslot - 1 - place = chain.rounds.currentAslot - 1 -
            (place - chain.rounds.missedBlocks block - 1) := by
          omega
        rw [decide_eq_false (by omega), decide_eq_true old, Bool.false_or, Bool.true_and, slot,
          recorded.window.bits _ (by omega)]

theorem getLsbD_genesis {place : Nat} (inside : place < 128) :
    RecentSlots.genesis.recentSlotsFilled.getLsbD place = true := by
  rw [RecentSlots.genesis, BitVec.getLsbD_allOnes, decide_eq_true inside]

theorem RecentSlots.genesis_counted : RecentSlots.genesis.Counted := by
  have all : ones RecentSlots.genesis.recentSlotsFilled = (List.range 128).length :=
    List.countP_eq_length.mpr fun place inside => getLsbD_genesis (List.mem_range.mp inside)
  rw [RecentSlots.Counted, all, List.length_range]
  rfl

/-- After every block the record tells which of the 128 slots before the slot of the head were
filled, and how many they are. -/
theorem produced_window {genesisTime : Nat} {props : ChainProperties}
    {candidates : List (String × Option Key)} {start : State Key} {chain : SlotState Key}
    {produced : List Nat} (founded : genesis genesisTime props candidates = .ok start)
    (ran : Produced { rounds := start, slots := .genesis } produced chain) :
    Window produced (chain.rounds.currentAslot - 1) chain.slots := by
  have recorded : Recorded produced chain := by
    induction ran with
    | start =>
      have first : start.currentAslot = 0 := by
        simp only [genesis, bind_ok_iff, pure_ok_iff] at founded
        obtain ⟨_, -, rfl⟩ := founded
        rfl
      constructor
      · rw [filled, first]
        rfl
      · exact fun slot member => absurd member List.not_mem_nil
      · apply Window.of_bits
        · exact RecentSlots.genesis_counted
        · intro place inside
          have none : start.currentAslot - 1 - place = 0 := by omega
          change _ = filled [] (start.currentAslot - 1 - place)
          rw [none]
          exact getLsbD_genesis inside
    | block block before applied hypothesis => exact hypothesis.block applied
  exact recorded.window

namespace TwoWitnesses

/-- The chain behind two blocks, the second of them two slots after the first. -/
def skipped : Except ScheduleError (SlotState Nat × SlotState Nat × SlotState Nat) := do
  let start ← genesis 300 props [("alice", some 1), ("bob", some 2)]
  let first ← SlotState.applyBlock { rounds := start, slots := .genesis } (block [] 1)
  let second ← first.applyBlock (block [] 3)
  pure ({ rounds := start, slots := .genesis }, first, second)

theorem skipped_produced {chains : SlotState Nat × SlotState Nat × SlotState Nat}
    (reached : skipped = .ok chains) :
    ∃ start, genesis 300 props [("alice", some 1), ("bob", some 2)] = .ok start ∧
      Produced { rounds := start, slots := .genesis }
        [chains.2.2.rounds.currentAslot, chains.2.1.rounds.currentAslot] chains.2.2 := by
  simp only [skipped, bind_ok_iff, pure_ok_iff] at reached
  obtain ⟨start, founded, first, one, second, two, rfl⟩ := reached
  exact ⟨start, founded, .block _ (.block _ .start one) two⟩

/-- The window that ends before the slot of the head has the first block at its second place. -/
theorem skipped_window :
    ∃ start chain, genesis 300 props [("alice", some 1), ("bob", some 2)] = .ok start ∧
      Produced { rounds := start, slots := .genesis } [3, 1] chain ∧
      Window [3, 1] 2 chain.slots := by
  obtain ⟨chains, reached, slots⟩ := exists_ok_of_any skipped
    (fun chains => chains.2.1.rounds.currentAslot = 1 ∧ chains.2.2.rounds.currentAslot = 3)
    (by decide +kernel)
  obtain ⟨start, founded, produced⟩ := skipped_produced reached
  rw [decide_eq_true_eq] at slots
  rw [slots.1, slots.2] at produced
  have window := produced_window founded produced
  rw [slots.2] at window
  exact ⟨start, _, founded, produced, window⟩

/-- The slot of the head was filled, and the first bit is not set. -/
theorem skipped_not_head :
    ∃ start chain, genesis 300 props [("alice", some 1), ("bob", some 2)] = .ok start ∧
      Produced { rounds := start, slots := .genesis } [3, 1] chain ∧
      chain.rounds.currentAslot = 3 ∧ ¬ Window [3, 1] chain.rounds.currentAslot chain.slots := by
  obtain ⟨chains, reached, slots⟩ := exists_ok_of_any skipped
    (fun chains => (chains.2.1.rounds.currentAslot = 1 ∧ chains.2.2.rounds.currentAslot = 3) ∧
      chains.2.2.slots.recentSlotsFilled.getLsbD 0 = false)
    (by decide +kernel)
  obtain ⟨start, founded, produced⟩ := skipped_produced reached
  rw [decide_eq_true_eq] at slots
  obtain ⟨⟨first, second⟩, newest⟩ := slots
  rw [first, second] at produced
  refine ⟨start, _, founded, produced, second, fun window => ?_⟩
  have bit := window.bits 0 (by decide)
  rw [newest, second] at bit
  exact absurd bit (by decide)

end TwoWitnesses

end DeipChain.WitnessSchedule
