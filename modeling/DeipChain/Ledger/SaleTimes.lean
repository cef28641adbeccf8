import DeipChain.Ledger.Writes

/-!
# The times of token sales

A sale waits until its start, is active until its end and is then finished or refunded.
The steps in between are taken when a block is applied, so they depend on the times of
the blocks. All other steps leave the sales and the time alone.
-/
namespace DeipChain.Ledger

open DeipChain.Result DeipChain.Table

/-- The sales, and the time that they are compared with. -/
def State.market (state : State) : List TokenSale × Time :=
  (state.sales, state.props.time)

/-- The operation is not about a token sale. -/
def Operation.Aside : Operation → Prop
  | createResearchTokenSale _ | contributeToTokenSale _ => False
  | _ => True

/-- The steps that neither set the time nor are about token sales. -/
def Step.Aside : Step → Prop
  | operation op => op.Aside
  | update _ _ | processResearchTokenSales => False
  | _ => True

theorem Step.Aside.unwritten {step : Step} (aside : step.Aside) :
    step.writes .sales = false ∧ step.writes .time = false := by
  cases step with
  | operation op =>
    cases op with
    | createResearchTokenSale op | contributeToTokenSale op => exact aside.elim
    | _ => exact ⟨rfl, rfl⟩
  | update headBlockNumber time => exact aside.elim
  | processResearchTokenSales => exact aside.elim
  | _ => exact ⟨rfl, rfl⟩

theorem Step.apply_market {percentOf : Int → Int → Int} {step : Step} {state : State}
    (aside : step.Aside) : Leaves State.market state.market (step.apply percentOf state) := by
  intro next applied
  have kept := Step.untouched applied
  exact Prod.ext (kept.sales aside.unwritten.1) (kept.time aside.unwritten.2)


/-! ## A pass of the sales -/

/-- What `process_research_token_sales` makes of a sale. -/
def TokenSale.turned (now : Time) (sale : TokenSale) : TokenSale :=
  if sale.endTime ≤ now ∧ sale.status = .active then
    { sale with
      status := if sale.totalAmount.amount < sale.softCap.amount then .expired else .finished }
  else if now < sale.endTime ∧ sale.startTime ≤ now ∧ sale.status = .inactive then
    { sale with status := .active }
  else sale

section Pass

variable {percentOf : Int → Int → Int} {state next : State}

theorem TokenSale.turned_id (now : Time) (sale : TokenSale) : (sale.turned now).id = sale.id := by
  rw [turned]
  split
  · rfl
  · split <;> rfl

theorem finishResearchTokenSale_market {id : Nat} :
    Leaves State.market state.market (finishResearchTokenSale percentOf state id) := by
  rw [finishResearchTokenSale]
  iterate 6 refine .bind fun _ _ => ?_
  exact .pure rfl

theorem refundResearchTokenSale_market {id : Nat} :
    Leaves State.market state.market (refundResearchTokenSale state id) := by
  rw [refundResearchTokenSale]
  iterate 4 refine .bind fun _ _ => ?_
  exact .pure rfl

/-- One round turns the sale that it is about. -/
theorem processResearchTokenSale_market {id : Nat}
    (distinct : (state.sales.map TokenSale.id).Nodup)
    (processed : processResearchTokenSale percentOf state id = .ok next) :
    next.market = (state.sales.map fun row =>
      if row.id = id then row.turned state.props.time else row, state.props.time) := by
  rw [processResearchTokenSale, bind_ok_iff] at processed
  obtain ⟨sale, got, processed⟩ := processed
  have found := expect_ok_iff.mp got
  have own : sale.id = id := by simpa using List.find?_some found
  have member := List.mem_of_find?_eq_some found
  -- only the sale that was found has the id
  have written : ∀ change : TokenSale → TokenSale, change sale = sale.turned state.props.time →
      modifyFirst (fun sale => sale.id == id) change state.sales =
        state.sales.map fun row => if row.id = id then row.turned state.props.time else row := by
    intro change same
    rw [modifyFirst_eq_map distinct]
    refine List.map_congr_left fun row listed => ?_
    by_cases hit : row.id = id
    · rw [if_pos hit, if_pos hit, List.inj_on_of_nodup_map distinct listed member (hit.trans own.symm)]
      exact same
    · rw [if_neg hit, if_neg hit]
  split at processed
  · rename_i due
    rw [bind_ok_iff] at processed
    obtain ⟨missed, compared, processed⟩ := processed
    simp only [Asset.below, Asset.sameSymbol, bind_ok_iff, require_ok_iff, pure_ok_iff] at compared
    obtain ⟨_, _, rfl⟩ := compared
    split at processed
    · rename_i short
      refine (refundResearchTokenSale_market next processed).trans ?_
      refine Prod.ext (written _ ?_) rfl
      rw [TokenSale.turned, if_pos due, if_pos (of_decide_eq_true short)]
    · rename_i enough
      refine (finishResearchTokenSale_market next processed).trans ?_
      refine Prod.ext (written _ ?_) rfl
      rw [TokenSale.turned, if_pos due, if_neg (by simpa using enough)]
  · rename_i early
    split at processed
    · rename_i waiting
      obtain rfl := pure_ok_iff.mp processed
      refine Prod.ext (written _ ?_) rfl
      rw [TokenSale.turned, if_neg early, if_pos waiting]
    · rename_i idle
      obtain rfl := pure_ok_iff.mp processed
      refine Prod.ext ?_ rfl
      have still : sale.turned state.props.time = sale := by
        rw [TokenSale.turned, if_neg early, if_neg idle]
      rw [← written (fun row => row) still.symm, modifyFirst_eq_map distinct]
      simp only [ite_self, List.map_id']
      rfl

/-- A pass turns every sale once. -/
theorem processResearchTokenSales_market (distinct : (state.sales.map TokenSale.id).Nodup)
    (processed : processResearchTokenSales percentOf state = .ok next) :
    next.market = (state.sales.map (TokenSale.turned state.props.time), state.props.time) := by
  have sorted := List.perm_insertionSort
    (fun one other : TokenSale => one.endTime ≤ other.endTime) state.sales
  obtain ⟨passed, _⟩ := foldlM_invariant (fun remaining (reached : State) =>
      reached.market = (state.sales.map fun row =>
        if row.id ∈ remaining then row else row.turned state.props.time, state.props.time) ∧
      remaining.Nodup) (by
        rintro id rest reached after ⟨before, fresh⟩ stepped
        obtain ⟨absent, fresh⟩ := List.nodup_cons.mp fresh
        obtain ⟨sales, time⟩ := Prod.mk.inj before
        have same : reached.sales.map TokenSale.id = state.sales.map TokenSale.id := by
          rw [sales, List.map_map]
          refine List.map_congr_left fun row _ => ?_
          dsimp only [Function.comp_apply]
          split
          · rfl
          · exact row.turned_id _
        refine ⟨?_, fresh⟩
        rw [processResearchTokenSale_market (same ▸ distinct) stepped, sales, time, List.map_map]
        refine Prod.ext (List.map_congr_left fun row _ => ?_) rfl
        by_cases hit : row.id = id
        · simp [hit, absent]
        · by_cases waits : row.id ∈ rest <;> simp [hit, waits, row.turned_id])
    ⟨Prod.ext ((List.map_id state.sales).symm.trans (List.map_congr_left fun row member =>
        (if_pos (List.mem_map_of_mem (sorted.mem_iff.mpr member))).symm)) rfl,
      (sorted.map TokenSale.id).nodup_iff.mpr distinct⟩ processed
  simpa using passed

end Pass

/-! ## What the sales are after a pass -/

/-- After a pass, no sale is left behind: a sale that is past its end is closed and has nothing
    frozen, and a sale that should run is active, unless it reached its hard cap. -/
structure State.Settled (state : State) : Prop where
  ended : ∀ sale ∈ state.sales, sale.endTime ≤ state.props.time → ¬ sale.Pending
  running : ∀ sale ∈ state.sales, sale.startTime ≤ state.props.time →
    state.props.time < sale.endTime →
      sale.status = .active ∨ sale.status = .finished ∧ sale.totalAmount = sale.hardCap
  released : ∀ owner symbol, frozen state.balances owner symbol =
    total (fun sale => if state.props.time < sale.endTime then
      sale.freezes state.registry owner symbol else 0) state.sales

/-- No sale waited for its start until it was past its end. -/
def State.NoneMissed (state : State) : Prop :=
  ∀ sale ∈ state.sales, sale.status = .inactive → state.props.time < sale.endTime

instance (state : State) : Decidable state.NoneMissed :=
  inferInstanceAs (Decidable (∀ _ ∈ _, _))

/-- Sales are closed at their ends, or by their hard caps. -/
def Closable (time : Time) (sale : TokenSale) : Prop :=
  (sale.status = .expired → sale.endTime ≤ time) ∧
    (sale.status = .finished → sale.endTime ≤ time ∨ sale.totalAmount = sale.hardCap)

def State.Timely (state : State) : Prop :=
  ∀ sale ∈ state.sales, Closable state.props.time sale

section Pass

variable {percentOf : Int → Int → Int} {state next : State}

theorem TokenSale.turned_closable {now : Time} {sale : TokenSale} (closable : Closable now sale) :
    Closable now (sale.turned now) := by
  rw [turned]
  split
  · rename_i due
    exact ⟨fun _ => due.1, fun _ => Or.inl due.1⟩
  · split
    · exact ⟨nofun, nofun⟩
    · exact closable

/-- What is past its end after it was turned and still pending was not started in time. -/
theorem TokenSale.turned_pending_iff {now : Time} {sale : TokenSale} (past : sale.endTime ≤ now) :
    (sale.turned now).Pending ↔ sale.status = .inactive := by
  rw [turned, Pending]
  cases status : sale.status with
  | active =>
    simp only [past, and_self, if_true, reduceCtorEq, iff_false, not_or]
    split <;> simp
  | inactive => simp [Nat.not_lt.mpr past, status]
  | finished => simp [status]
  | expired => simp [status]

theorem TokenSale.turned_endTime (now : Time) (sale : TokenSale) :
    (sale.turned now).endTime = sale.endTime ∧ (sale.turned now).startTime = sale.startTime := by
  rw [turned]
  split
  · exact ⟨rfl, rfl⟩
  · split <;> exact ⟨rfl, rfl⟩

/-- In its time, a sale that is neither closed nor full is active after it was turned. -/
theorem TokenSale.turned_running {now : Time} {sale : TokenSale} (closable : Closable now sale)
    (started : sale.startTime ≤ now) (open_ : now < sale.endTime) :
    (sale.turned now).status = .active ∨
      (sale.turned now).status = .finished ∧ (sale.turned now).totalAmount = (sale.turned now).hardCap := by
  have early : ¬ (sale.endTime ≤ now ∧ sale.status = .active) :=
    fun due => Nat.not_le.mpr open_ due.1
  rw [turned, if_neg early]
  cases status : sale.status with
  | active => simp [status]
  | inactive => simp [started, open_]
  | finished =>
    have full := (closable.2 status).resolve_left (Nat.not_le.mpr open_)
    simp [status, full]
  | expired => exact absurd (closable.1 status) (Nat.not_le.mpr open_)

/-- A pass leaves no sale behind exactly if none was missed before it. -/
theorem processResearchTokenSales_settled_iff (sound : Sound state) (timely : state.Timely)
    (processed : processResearchTokenSales percentOf state = .ok next) :
    next.Settled ↔ state.NoneMissed := by
  have posted : Posted (fun _ => False) (fun _ => 0) state next :=
    processResearchTokenSales_posted processed
  have books := (posted.sound sound).sales
  obtain ⟨sales, time⟩ := Prod.mk.inj (processResearchTokenSales_market sound.sales.nodup processed)
  constructor
  · intro settled sale member waits
    by_contra late
    have past : sale.endTime ≤ state.props.time := Nat.not_lt.mp late
    have turned : sale.turned state.props.time ∈ next.sales := by
      rw [sales]
      exact List.mem_map_of_mem member
    refine settled.ended _ turned ?_ ((TokenSale.turned_pending_iff past).mpr waits)
    rw [time, (sale.turned_endTime _).1]
    exact past
  · intro none
    have ended : ∀ sale ∈ next.sales, sale.endTime ≤ next.props.time → ¬ sale.Pending := by
      rw [sales, time, List.forall_mem_map]
      intro sale member past
      rw [(sale.turned_endTime _).1] at past
      rw [TokenSale.turned_pending_iff past]
      exact fun waits => Nat.not_lt.mpr past (none sale member waits)
    refine ⟨ended, ?_, ?_⟩
    · rw [sales, time, List.forall_mem_map]
      intro sale member started running
      rw [(sale.turned_endTime _).2] at started
      rw [(sale.turned_endTime _).1] at running
      exact TokenSale.turned_running (timely sale member) started running
    · intro owner symbol
      rw [books.frozen]
      refine total_congr fun sale member => ?_
      by_cases running : next.props.time < sale.endTime
      · rw [if_pos running]
      · rw [if_neg running]
        exact if_neg fun both => ended sale member (Nat.not_lt.mp running) both.1

/-! ## What keeps the sales timely -/

theorem CreateResearchTokenSaleOperation.apply_timely {op : CreateResearchTokenSaleOperation}
    (timely : state.Timely) (applied : op.apply state = .ok next) : next.Timely := by
  simp only [apply, createResearchTokenSale, bind_ok_iff, require_ok_iff, pure_ok_iff] at applied
  obtain ⟨_, _, _, _, _, _, _, _, _, _, _, _, _, _, _, _, sales, ⟨_, _, _, _, _, _, rfl⟩, rfl⟩ := applied
  refine forall_append_singleton timely ?_
  constructor
  · rintro ⟨⟩
  · rintro ⟨⟩

/-- A contribution that reaches the hard cap fills the sale exactly. -/
theorem ContributeToTokenSaleOperation.apply_timely {op : ContributeToTokenSaleOperation}
    (sound : Sound state) (timely : state.Timely)
    (applied : op.apply percentOf state = .ok next) : next.Timely := by
  simp only [apply, bind_ok_iff, require_ok_iff, expect_ok_iff] at applied
  obtain ⟨_, _, sale, listed, _, _, _, active, _, _, _, _, _, _, sum, _, reached, _, amount, rest,
    contributions, _, balances, _, sales, collected, finished⟩ := applied
  simp only [collectFunds, getResearchTokenSaleById, bind_ok_iff, expect_ok_iff,
    pure_ok_iff] at collected
  obtain ⟨same, found, totalAmount, added, rfl⟩ := collected
  have member := List.mem_of_find?_eq_some listed
  obtain rfl : same = sale := by
    have first := find?_of_nodup sound.sales.nodup member
    exact Option.some.inj (found.symm.trans first)
  -- with the contribution the sale is still active
  have collecting : ∀ sale ∈ modifyFirst (fun sale => sale.id == same.id)
      (fun sale => { sale with totalAmount }) state.sales, Closable state.props.time sale := by
    refine forall_modifyFirst timely fun row hit _ => ?_
    obtain rfl := Option.some.inj (hit.symm.trans found)
    rw [Closable]
    dsimp only
    rw [active]
    constructor
    · rintro ⟨⟩
    · rintro ⟨⟩
  by_cases full : reached = true
  · rw [amountToContribute, if_pos full] at rest
    rw [if_pos full] at finished
    obtain ⟨sales, time⟩ := Prod.mk.inj (finishResearchTokenSale_market next finished)
    -- what is left up to the hard cap makes up the hard cap
    obtain ⟨units, rfl⟩ := Asset.sub_ok_iff.mp rest
    obtain ⟨_, rfl⟩ := Asset.add_ok_iff.mp added
    rw [State.Timely, sales, time]
    refine forall_modifyFirst collecting fun row hit _ => ⟨by rintro ⟨⟩, fun _ => Or.inr ?_⟩
    rw [find?_modifyFirst found (by simp), Option.some.injEq] at hit
    subst hit
    exact congrArg₂ Asset.mk (add_sub_cancel _ _) units.symm
  · rw [if_neg full] at finished
    obtain rfl := pure_ok_iff.mp finished
    exact collecting

/-- Block times do not go backwards. -/
def Step.Onward (state : State) : Step → Prop
  | update _ time => state.props.time ≤ time
  | _ => True

/-- Every step keeps the sales timely. -/
theorem Step.apply_timely {step : Step} (sound : Sound state) (timely : state.Timely)
    (onward : step.Onward state) (applied : step.apply percentOf state = .ok next) :
    next.Timely := by
  have aside (apart : step.Aside) : next.Timely := by
    obtain ⟨sales, time⟩ := Prod.mk.inj (Step.apply_market apart next applied)
    rw [State.Timely, sales, time]
    exact timely
  cases step with
  | operation op =>
    cases op with
    | createResearchTokenSale op =>
      obtain ⟨_, _, _, _, evaluated⟩ := by simpa only [Step.apply, Operation.apply, bind_ok_iff] using applied
      exact op.apply_timely timely evaluated
    | contributeToTokenSale op =>
      obtain ⟨_, _, _, _, evaluated⟩ := by simpa only [Step.apply, Operation.apply, bind_ok_iff] using applied
      exact op.apply_timely sound timely evaluated
    | _ => exact aside trivial
  | update headBlockNumber time =>
    obtain rfl := pure_ok_iff.mp applied
    intro sale member
    obtain ⟨expired, finished⟩ := timely sale member
    refine ⟨fun status => (expired status).trans onward, fun status => ?_⟩
    exact (finished status).imp_left fun past => past.trans onward
  | processResearchTokenSales =>
    obtain ⟨sales, time⟩ :=
      Prod.mk.inj (processResearchTokenSales_market sound.sales.nodup applied)
    rw [State.Timely, sales, time, List.forall_mem_map]
    exact fun sale member => TokenSale.turned_closable (timely sale member)
  | _ => exact aside trivial

end Pass

/-- No sale is missed before a pass. -/
def Step.Seen (state : State) (step : Step) : Prop :=
  step = .processResearchTokenSales → state.NoneMissed

/-- No sale is left behind by a pass. -/
def Step.Settles (percentOf : Int → Int → Int) (state : State) (step : Step) : Prop :=
  step = .processResearchTokenSales →
    ∀ next, step.apply percentOf state = .ok next → next.Settled

theorem Step.settles_iff {percentOf : Int → Int → Int} {state next : State} {step : Step}
    (sound : Sound state) (timely : state.Timely) (applied : step.apply percentOf state = .ok next) :
    step.Settles percentOf state ↔ step.Seen state := by
  refine imp_congr_right ?_
  rintro rfl
  rw [← processResearchTokenSales_settled_iff sound timely applied]
  constructor
  · exact fun all => all next applied
  · intro settled other also
    exact Except.ok.inj (applied.symm.trans also) ▸ settled

/-! ## Genesis -/

theorem GenesisState.init_market (genesis : GenesisState) :
    Leaves State.market ([], genesis.initialTimestamp) genesis.init := by
  intro start inited
  obtain ⟨assets, _, framed⟩ := GenesisState.init_framed inited
  have kept := Untouched.of_rest framed.1
  exact Prod.ext (kept.sales rfl) (kept.time rfl)

/-! ## Runs -/

section Runs

variable {percentOf : Int → Int → Int} {genesis : GenesisState} {steps : List Step} {state : State}

/-- Whatever the times of the blocks are, each pass leaves no sale behind exactly if at each pass
    no sale was missed. -/
theorem run_settles_iff
    (onward : RunFits percentOf (fun state step => step.Onward state) genesis steps)
    (ran : run percentOf genesis steps = .ok state) :
    RunFits percentOf (fun state step => step.Settles percentOf state) genesis steps ↔
      RunFits percentOf (fun state step => step.Seen state) genesis steps := by
  obtain ⟨start, inited, ran⟩ := run_ok_iff.mp ran
  have begun : Sound start ∧ start.Timely := by
    refine ⟨(GenesisState.init_books inited).1, ?_⟩
    rw [State.Timely, (Prod.mk.inj (genesis.init_market start inited)).1]
    exact fun _ none => absurd none List.not_mem_nil
  have same : Along (Step.apply percentOf) (fun state step => step.Settles percentOf state) start
      steps ↔ Along (Step.apply percentOf) (fun state step => step.Seen state) start steps := by
    refine along_iff_of_ran (fun state => Sound state ∧ state.Timely) ?_ begun (onward start inited) ran
    rintro step state next ⟨sound, timely⟩ onward applied
    exact ⟨Step.settles_iff sound timely applied, (Step.apply_sound applied).sound sound,
      Step.apply_timely sound timely onward applied⟩
  constructor
  · intro settled other also
    obtain rfl := Except.ok.inj (inited.symm.trans also)
    exact same.mp (settled start inited)
  · intro seen other also
    obtain rfl := Except.ok.inj (inited.symm.trans also)
    exact same.mpr (seen start inited)

end Runs

namespace Sample

def onward (state : State) : Step → Bool
  | .update _ time => state.props.time ≤ time
  | _ => true

theorem onward_of_test (state : State) (step : Step) (tested : onward state step = true) :
    step.Onward state := by
  cases step with
  | update headBlockNumber time => exact (of_decide_eq_true tested : state.props.time ≤ time)
  | _ => trivial

/-- A block in which a sale starts, one in which it is bought from, and one in which it ends. -/
def sold : List Step :=
  (block 1 tokenize).steps ++
    (block 2 [.contributeToTokenSale ⟨"bob", "sale", ⟨20, deipSymbol⟩⟩]).steps ++
    (block 3 []).steps

theorem sold_settles : ∃ state, run percentOf genesis sold = .ok state ∧
    (RunFits percentOf (fun state step => step.Settles percentOf state) genesis sold ↔
      RunFits percentOf (fun state step => step.Seen state) genesis sold) := by
  obtain ⟨state, ran⟩ := exists_ok (run percentOf genesis sold) (by decide +kernel)
  exact ⟨state, ran, run_settles_iff (RunFits.of_passes onward_of_test (by decide +kernel)) ran⟩

/-- The next block comes after the time of the sale. The run ends with its pass. -/
def missed : List Step :=
  (block 1 [.createAsset ⟨"alice", token, "LENS", 100, [.researchSecurityToken "lens" "lab"]⟩,
    .issueAsset ⟨"alice", ⟨50, token⟩, "lab"⟩,
    .createResearchTokenSale ⟨"sale", "lab", "lens", 5, 100, [⟨30, token⟩], ⟨10, deipSymbol⟩,
      ⟨100, deipSymbol⟩⟩]).steps ++
  { block 2 [] with time := 103 }.steps.take 5

/-- After the pass the sale is still inactive, past its end, with its tokens frozen. -/
theorem missed_waits : missed.getLast? = some .processResearchTokenSales ∧
    ∃ state, run percentOf genesis missed = .ok state ∧
    RunFits percentOf (fun state step => step.Onward state) genesis missed ∧
    ¬ state.Settled ∧ frozen state.balances "lab" token = 30 := by
  obtain ⟨state, ran, tested⟩ := exists_ok_of_any (run percentOf genesis missed)
    (fun state => (state.sales.any fun sale =>
      decide (sale.endTime ≤ state.props.time ∧ sale.Pending)) &&
      decide (frozen state.balances "lab" token = 30)) (by decide +kernel)
  obtain ⟨waits, frozen⟩ := Bool.and_eq_true_iff.mp tested
  obtain ⟨sale, member, past⟩ := List.any_eq_true.mp waits
  obtain ⟨past, pending⟩ := of_decide_eq_true past
  refine ⟨rfl, state, ran, RunFits.of_passes onward_of_test (by decide +kernel), fun settled => ?_,
    of_decide_eq_true frozen⟩
  exact settled.ended sale member past pending

end Sample

end DeipChain.Ledger
