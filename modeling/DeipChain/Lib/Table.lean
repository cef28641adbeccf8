import Mathlib.Algebra.BigOperators.Group.List.Basic
import Mathlib.Algebra.Ring.Int.Defs
import Mathlib.Algebra.Ring.Nat
import Mathlib.Data.List.Forall2
import Mathlib.Data.List.Nodup

/-!
# Tables of records

An object table is the list of its rows in the order of their creation. A row is
found, changed and removed through a key, and a key picks the first row that
carries it. The laws say what a change or a removal does to a sum over the rows,
to the keys and to a property of every row.
-/
namespace DeipChain.Table

universe u v
variable {α : Type u} {κ : Type v}

/-- The table with the first row that carries the key changed. -/
def modifyFirst (key : α → Bool) (change : α → α) : List α → List α
  | [] => []
  | row :: rows => if key row then change row :: rows else row :: modifyFirst key change rows

/-- The sum of a weight over the rows. -/
def total (weight : α → Int) (rows : List α) : Int :=
  (rows.map weight).sum

@[simp] theorem total_nil (weight : α → Int) : total weight [] = 0 := rfl

@[simp] theorem total_cons (weight : α → Int) (row : α) (rows : List α) :
    total weight (row :: rows) = weight row + total weight rows := by
  simp [total]

@[simp] theorem total_append (weight : α → Int) (first second : List α) :
    total weight (first ++ second) = total weight first + total weight second := by
  simp [total]

theorem total_congr {weight other : α → Int} {rows : List α}
    (same : ∀ row ∈ rows, weight row = other row) : total weight rows = total other rows := by
  unfold total
  rw [List.map_congr_left same]

theorem total_eq_zero {weight : α → Int} {rows : List α} (none : ∀ row ∈ rows, weight row = 0) :
    total weight rows = 0 := by
  induction rows with
  | nil => rfl
  | cons row rows hypothesis =>
    have rest := hypothesis fun other member => none other (List.mem_cons_of_mem row member)
    rw [total_cons, rest, none row List.mem_cons_self, add_zero]

theorem total_nonneg {weight : α → Int} {rows : List α} (all : ∀ row ∈ rows, 0 ≤ weight row) :
    0 ≤ total weight rows := by
  induction rows with
  | nil => exact Int.le_refl 0
  | cons row rows hypothesis =>
    have rest := hypothesis fun other member => all other (List.mem_cons_of_mem row member)
    have first := all row List.mem_cons_self
    rw [total_cons]
    omega

/-- No row of a table without negative weights has more than all together. -/
theorem le_total {weight : α → Int} {rows : List α} {row : α} (all : ∀ row ∈ rows, 0 ≤ weight row)
    (member : row ∈ rows) : weight row ≤ total weight rows := by
  induction rows with
  | nil => cases member
  | cons head rows hypothesis =>
    rw [List.forall_mem_cons] at all
    rw [total_cons]
    rcases List.mem_cons.mp member with rfl | later
    · have others := total_nonneg all.2
      omega
    · have bounded := hypothesis all.2 later
      omega

theorem total_add (weight other : α → Int) (rows : List α) :
    total (fun row => weight row + other row) rows = total weight rows + total other rows := by
  induction rows with
  | nil => rfl
  | cons row rows hypothesis =>
    simp only [total_cons, hypothesis]
    omega

/-- A sum over two tables does not depend on which of them is summed up first. -/
theorem total_comm {β : Type u} (weight : α → β → Int) (rows : List α) (others : List β) :
    total (fun row => total (weight row) others) rows =
      total (fun other => total (fun row => weight row other) rows) others := by
  induction rows with
  | nil => exact (total_eq_zero fun _ _ => rfl).symm
  | cons row rows hypothesis =>
    simp only [total_cons, hypothesis]
    exact (total_add _ _ others).symm

/-- Changing the row that was found changes a sum by what that row changes. -/
theorem total_modifyFirst {key : α → Bool} {change : α → α} {rows : List α} {row : α}
    (weight : α → Int) (found : rows.find? key = some row) :
    total weight (modifyFirst key change rows) =
      total weight rows + (weight (change row) - weight row) := by
  induction rows with
  | nil => simp at found
  | cons head rows hypothesis =>
    by_cases hit : key head
    · have same : head = row := by simpa [List.find?_cons, hit] using found
      subst same
      simp only [modifyFirst, hit, if_true, total_cons]
      omega
    · have later : rows.find? key = some row := by simpa [List.find?_cons, hit] using found
      simp only [modifyFirst, hit, Bool.false_eq_true, if_false, total_cons, hypothesis later]
      omega

/-- A change that keeps every row's weight keeps the sum. -/
theorem total_modifyFirst_same {key : α → Bool} {change : α → α} {weight : α → Int}
    {rows : List α} (same : ∀ row, weight (change row) = weight row) :
    total weight (modifyFirst key change rows) = total weight rows := by
  induction rows with
  | nil => rfl
  | cons row rows hypothesis =>
    simp only [modifyFirst]
    split
    · simp only [total_cons, same]
    · simp only [total_cons, hypothesis]

/-- Removing the row that was found takes its weight out of a sum. -/
theorem total_eraseP {key : α → Bool} {rows : List α} {row : α} (weight : α → Int)
    (found : rows.find? key = some row) :
    total weight (rows.eraseP key) = total weight rows - weight row := by
  induction rows with
  | nil => simp at found
  | cons head rows hypothesis =>
    by_cases hit : key head
    · have same : head = row := by simpa [List.find?_cons, hit] using found
      rw [List.eraseP_cons_of_pos hit, total_cons, same]
      omega
    · have later : rows.find? key = some row := by simpa [List.find?_cons, hit] using found
      rw [List.eraseP_cons_of_neg hit, total_cons, total_cons, hypothesis later]
      omega

/-- A sum splits into the rows that satisfy a test and those that do not. -/
theorem total_filter_add (weight : α → Int) (test : α → Bool) (rows : List α) :
    total weight (rows.filter test) + total weight (rows.filter fun row => !test row) =
      total weight rows := by
  induction rows with
  | nil => rfl
  | cons row rows hypothesis =>
    by_cases hit : test row
    · simp only [List.filter_cons, hit, if_true, Bool.not_true, Bool.false_eq_true, if_false,
        total_cons, ← hypothesis]
      omega
    · simp only [List.filter_cons, hit, Bool.false_eq_true, if_false, Bool.not_false, if_true,
        total_cons, ← hypothesis]
      omega

/-- The rows after a change are old rows, or the changed form of the row found. -/
theorem mem_modifyFirst {key : α → Bool} {change : α → α} {rows : List α} {other : α}
    (member : other ∈ modifyFirst key change rows) :
    other ∈ rows ∨ ∃ row, rows.find? key = some row ∧ other = change row := by
  induction rows with
  | nil => simp [modifyFirst] at member
  | cons row rows hypothesis =>
    by_cases hit : key row
    · simp only [modifyFirst, hit, if_true, List.mem_cons] at member
      rcases member with changed | kept
      · exact .inr ⟨row, by simp [hit], changed⟩
      · exact .inl (List.mem_cons_of_mem row kept)
    · simp only [modifyFirst, hit, Bool.false_eq_true, if_false, List.mem_cons] at member
      rcases member with same | kept
      · exact .inl (same ▸ List.mem_cons_self)
      · rcases hypothesis kept with old | ⟨changed, found, equal⟩
        · exact .inl (List.mem_cons_of_mem row old)
        · exact .inr ⟨changed, by simpa [List.find?_cons, hit] using found, equal⟩

/-- A row of another key stays. -/
theorem mem_modifyFirst_of_not {key : α → Bool} {change : α → α} {rows : List α} {other : α}
    (member : other ∈ rows) (apart : key other = false) : other ∈ modifyFirst key change rows := by
  induction rows with
  | nil => exact member
  | cons row rows hypothesis =>
    by_cases hit : key row
    · simp only [modifyFirst, hit, if_true]
      rcases List.mem_cons.mp member with rfl | behind
      · rw [apart] at hit
        cases hit
      · exact List.mem_cons_of_mem _ behind
    · simp only [modifyFirst, hit, Bool.false_eq_true, if_false]
      rcases List.mem_cons.mp member with rfl | behind
      · exact List.mem_cons_self
      · exact List.mem_cons_of_mem _ (hypothesis behind)

/-- A property of every row that the change of a row keeps. -/
theorem forall_modifyFirst {key : α → Bool} {change : α → α} {rows : List α} {property : α → Prop}
    (all : ∀ row ∈ rows, property row)
    (kept : ∀ row, rows.find? key = some row → property row → property (change row)) :
    ∀ row ∈ modifyFirst key change rows, property row := by
  intro other member
  rcases mem_modifyFirst member with old | ⟨row, found, equal⟩
  · exact all other old
  · exact equal ▸ kept row found (all row (List.mem_of_find?_eq_some found))

/-- A change that keeps a field of every row keeps the column of that field. -/
theorem map_modifyFirst {key : α → Bool} {change : α → α} {field : α → κ} {rows : List α}
    (same : ∀ row, field (change row) = field row) :
    (modifyFirst key change rows).map field = rows.map field := by
  induction rows with
  | nil => rfl
  | cons row rows hypothesis =>
    simp only [modifyFirst]
    split
    · simp only [List.map_cons, same]
    · simp only [List.map_cons, hypothesis]

/-- The changed row is in the table. -/
theorem change_mem_modifyFirst {key : α → Bool} {change : α → α} {rows : List α} {row : α}
    (found : rows.find? key = some row) : change row ∈ modifyFirst key change rows := by
  induction rows with
  | nil => simp at found
  | cons head rows hypothesis =>
    by_cases hit : key head
    · have one : head = row := by simpa [List.find?_cons, hit] using found
      subst one
      simp only [modifyFirst, hit, if_true]
      exact List.mem_cons_self
    · have later : rows.find? key = some row := by simpa [List.find?_cons, hit] using found
      simp only [modifyFirst, hit, Bool.false_eq_true, if_false]
      exact List.mem_cons_of_mem head (hypothesis later)

/-- What holds of every row still does exactly if it holds of the changed one. -/
theorem forall_modifyFirst_iff {key : α → Bool} {change : α → α} {rows : List α} {row : α}
    {property : α → Prop} (all : ∀ other ∈ rows, property other)
    (found : rows.find? key = some row) :
    (∀ other ∈ modifyFirst key change rows, property other) ↔ property (change row) := by
  constructor
  · exact fun still => still _ (change_mem_modifyFirst found)
  · intro changed
    refine forall_modifyFirst all ?_
    intro other hit _
    rw [found, Option.some.injEq] at hit
    exact hit ▸ changed

/-- A change that a field follows changes the column of that field in the same place. -/
theorem modifyFirst_map {key : α → Bool} {change : α → α} {field : α → κ} {test : κ → Bool}
    {follow : κ → κ} (tests : ∀ row, test (field row) = key row)
    (follows : ∀ row, field (change row) = follow (field row)) (rows : List α) :
    (modifyFirst key change rows).map field = modifyFirst test follow (rows.map field) := by
  induction rows with
  | nil => rfl
  | cons row rows hypothesis =>
    by_cases hit : key row
    · simp only [modifyFirst, hit, tests, if_true, List.map_cons, follows]
    · simp only [modifyFirst, hit, tests, Bool.false_eq_true, if_false, List.map_cons, hypothesis]

/-- Only the row that was found has to keep the column. -/
theorem map_modifyFirst_found {key : α → Bool} {change : α → α} {field : α → κ} {rows : List α}
    {row : α} (found : rows.find? key = some row) (same : field (change row) = field row) :
    (modifyFirst key change rows).map field = rows.map field := by
  induction rows with
  | nil => rfl
  | cons head rows hypothesis =>
    by_cases hit : key head
    · have one : head = row := by simpa [List.find?_cons, hit] using found
      subst one
      simp only [modifyFirst, hit, if_true, List.map_cons, same]
    · have later : rows.find? key = some row := by simpa [List.find?_cons, hit] using found
      simp only [modifyFirst, hit, Bool.false_eq_true, if_false, List.map_cons, hypothesis later]

theorem nodup_modifyFirst {key : α → Bool} {change : α → α} {field : α → κ} {rows : List α}
    (same : ∀ row, field (change row) = field row) (distinct : (rows.map field).Nodup) :
    ((modifyFirst key change rows).map field).Nodup := by
  rw [map_modifyFirst same]
  exact distinct

@[simp] theorem length_modifyFirst (key : α → Bool) (change : α → α) (rows : List α) :
    (modifyFirst key change rows).length = rows.length := by
  induction rows with
  | nil => rfl
  | cons row rows hypothesis =>
    simp only [modifyFirst]
    split
    · rfl
    · rw [List.length_cons, hypothesis, List.length_cons]

/-- Two changes of the row of a key are one. -/
theorem modifyFirst_modifyFirst {key : α → Bool} {first second : α → α}
    (carries : ∀ row, key row = true → key (first row) = true) (rows : List α) :
    modifyFirst key second (modifyFirst key first rows) =
      modifyFirst key (fun row => second (first row)) rows := by
  induction rows with
  | nil => rfl
  | cons row rows hypothesis =>
    by_cases hit : key row
    · simp [modifyFirst, hit, carries row hit]
    · simp [modifyFirst, hit, hypothesis]

/-- A change among the rows that a test drops does not show in the rows that it keeps. -/
theorem filter_modifyFirst {key test : α → Bool} {change : α → α}
    (dropped : ∀ row, key row = true → test row = false ∧ test (change row) = false)
    (rows : List α) : (modifyFirst key change rows).filter test = rows.filter test := by
  induction rows with
  | nil => rfl
  | cons row rows hypothesis =>
    by_cases hit : key row
    · simp [modifyFirst, hit, dropped row hit]
    · simp only [modifyFirst, hit, Bool.false_eq_true, if_false, List.filter_cons, hypothesis]

/-- A change relates every row of the table to the row in its place. -/
theorem forall₂_modifyFirst {key : α → Bool} {change : α → α} {relation : α → α → Prop}
    (same : ∀ row, relation row row) (changed : ∀ row, relation row (change row)) (rows : List α) :
    List.Forall₂ relation rows (modifyFirst key change rows) := by
  induction rows with
  | nil => exact .nil
  | cons row rows hypothesis =>
    simp only [modifyFirst]
    split
    · exact .cons (changed row) (List.forall₂_same.mpr fun row _ => same row)
    · exact .cons (same row) hypothesis

/-- Rows that agree on the key are found in the same place. -/
theorem find?_forall₂ {key : α → Bool} {relation : α → α → Prop}
    (agrees : ∀ row other, relation row other → key other = key row) {rows others : List α}
    (related : List.Forall₂ relation rows others) {other : α}
    (found : others.find? key = some other) :
    ∃ row, rows.find? key = some row ∧ relation row other := by
  induction related with
  | nil => simp at found
  | @cons row head rows others same _ hypothesis =>
    have keys := agrees row head same
    by_cases hit : key head
    · have equal : head = other := by simpa [List.find?_cons, hit] using found
      exact ⟨row, by simp [← keys, hit], equal ▸ same⟩
    · have later : others.find? key = some other := by simpa [List.find?_cons, hit] using found
      obtain ⟨earlier, foundEarlier, relates⟩ := hypothesis later
      exact ⟨earlier, by simpa [List.find?_cons, ← keys, hit] using foundEarlier, relates⟩

/-- A change that keeps a test and a field of every row keeps what the test finds there. -/
theorem map_find?_modifyFirst {key test : α → Bool} {change : α → α} {field : α → κ}
    (sameTest : ∀ row, test (change row) = test row)
    (sameField : ∀ row, field (change row) = field row) (rows : List α) :
    ((modifyFirst key change rows).find? test).map field = (rows.find? test).map field := by
  induction rows with
  | nil => rfl
  | cons row rows hypothesis =>
    by_cases hit : key row
    · by_cases passed : test row <;> simp [modifyFirst, hit, sameTest, passed, sameField]
    · by_cases passed : test row <;> simp [modifyFirst, hit, passed, hypothesis]

/-- A changed row that still carries its key is found in its place. -/
theorem find?_modifyFirst {key : α → Bool} {change : α → α} {rows : List α} {row : α}
    (found : rows.find? key = some row) (carries : key (change row) = true) :
    (modifyFirst key change rows).find? key = some (change row) := by
  induction rows with
  | nil => simp at found
  | cons head rows hypothesis =>
    by_cases hit : key head
    · have same : head = row := by simpa [List.find?_cons, hit] using found
      simp [modifyFirst, same ▸ hit, same, carries]
    · have later : rows.find? key = some row := by simpa [List.find?_cons, hit] using found
      simp [modifyFirst, hit, hypothesis later]

/-- A change of rows that a test misses, before and after, does not change what it finds. -/
theorem find?_modifyFirst_apart {key test : α → Bool} {change : α → α}
    (misses : ∀ row, key row = true → test row = false ∧ test (change row) = false)
    (rows : List α) : (modifyFirst key change rows).find? test = rows.find? test := by
  induction rows with
  | nil => rfl
  | cons row rows hypothesis =>
    by_cases hit : key row
    · simp [modifyFirst, hit, misses row hit]
    · simp only [modifyFirst, hit, Bool.false_eq_true, if_false, List.find?_cons, hypothesis]

/-- A change of the row of one key does not show under another key. -/
theorem find?_modifyFirst_ne [DecidableEq κ] {field : α → κ} {change : α → α} {key other : κ}
    (apart : other ≠ key) (same : ∀ row, field (change row) = field row) (rows : List α) :
    (modifyFirst (fun row => field row == key) change rows).find? (fun row => field row == other) =
      rows.find? (fun row => field row == other) := by
  refine find?_modifyFirst_apart (fun row hit => ?_) rows
  simp [same, beq_iff_eq.mp hit, Ne.symm apart]

/-- A removal of the row of one key does not show under another key. -/
theorem find?_eraseP_ne [DecidableEq κ] {field : α → κ} {key other : κ} (apart : other ≠ key)
    (rows : List α) :
    (rows.eraseP fun row => field row == key).find? (fun row => field row == other) =
      rows.find? (fun row => field row == other) := by
  induction rows with
  | nil => rfl
  | cons row rows hypothesis =>
    by_cases hit : field row = key
    · simp [hit, Ne.symm apart]
    · by_cases passed : field row = other
      · simp [passed, apart]
      · simp [hit, passed, hypothesis]

/-- With distinct keys, the key of a row finds that row. -/
theorem find?_of_nodup [BEq κ] [LawfulBEq κ] {field : α → κ} {rows : List α} {row : α}
    (distinct : (rows.map field).Nodup) (member : row ∈ rows) :
    rows.find? (fun other => field other == field row) = some row := by
  induction rows with
  | nil => cases member
  | cons head rows hypothesis =>
    rw [List.map_cons, List.nodup_cons] at distinct
    rcases List.mem_cons.mp member with rfl | later
    · simp
    · have apart : field head ≠ field row := fun same =>
        distinct.1 (same ▸ List.mem_map_of_mem later)
      simpa [List.find?_cons, apart] using hypothesis distinct.2 later

/-- With distinct keys, a weight on the row of one key is counted once. -/
theorem total_ite_key [DecidableEq κ] {field : α → κ} {rows : List α} {key : κ} (weight : Int)
    (distinct : (rows.map field).Nodup) (known : key ∈ rows.map field) :
    total (fun row => if field row = key then weight else 0) rows = weight := by
  induction rows with
  | nil => cases known
  | cons row rows hypothesis =>
    rw [List.map_cons, List.nodup_cons] at distinct
    rw [total_cons]
    by_cases hit : field row = key
    · have none : total (fun row => if field row = key then weight else 0) rows = 0 := by
        apply total_eq_zero
        intro other member
        apply if_neg
        intro equal
        exact distinct.1 (hit ▸ equal ▸ List.mem_map_of_mem member)
      rw [none, if_pos hit, add_zero]
    · have later : key ∈ rows.map field := by
        rcases List.mem_cons.mp known with equal | later
        · exact absurd equal.symm hit
        · exact later
      rw [if_neg hit, hypothesis distinct.2 later, zero_add]

/-- With distinct keys, what is found under a key is what the table holds under it. -/
theorem find?_getD_eq_total [DecidableEq κ] {field : α → κ} {rows : List α}
    (distinct : (rows.map field).Nodup) (key : κ) (weight : α → Int) :
    ((rows.find? fun row => field row == key).map weight).getD 0 =
      total (fun row => if field row = key then weight row else 0) rows := by
  cases found : rows.find? fun row => field row == key with
  | none =>
    refine (total_eq_zero fun row member => if_neg fun same => ?_).symm
    simpa [same] using List.find?_eq_none.mp found row member
  | some row =>
    have member := List.mem_of_find?_eq_some found
    have hit : field row = key := by simpa using List.find?_some found
    have counted := total_ite_key (weight row) distinct (List.mem_map_of_mem member)
    refine counted.symm.trans (total_congr fun other others => ?_)
    rw [← hit]
    by_cases same : field other = field row
    · rw [List.inj_on_of_nodup_map distinct others member same]
    · rw [if_neg same, if_neg same]

/-- With distinct keys, a change of the row of a key leaves all other rows. -/
theorem mem_modifyFirst_iff [BEq κ] [LawfulBEq κ] {field : α → κ} {key : κ} {change : α → α}
    {rows : List α} {row other : α} (distinct : (rows.map field).Nodup)
    (found : rows.find? (fun other => field other == key) = some row) :
    other ∈ modifyFirst (fun other => field other == key) change rows ↔
      other ∈ rows ∧ field other ≠ key ∨ other = change row := by
  induction rows with
  | nil => simp at found
  | cons head rows hypothesis =>
    rw [List.map_cons, List.nodup_cons] at distinct
    by_cases hit : field head = key
    · have same : head = row := by simpa [List.find?_cons, hit] using found
      subst same
      have apart : ∀ later ∈ rows, field later ≠ key := by
        intro later member equal
        exact distinct.1 (hit ▸ equal ▸ List.mem_map_of_mem member)
      simp only [modifyFirst, hit, beq_self_eq_true, if_true, List.mem_cons]
      constructor
      · rintro (changed | kept)
        · exact Or.inr changed
        · exact Or.inl ⟨Or.inr kept, apart other kept⟩
      · rintro (⟨equal | kept, differs⟩ | changed)
        · exact absurd (equal ▸ hit) differs
        · exact Or.inr kept
        · exact Or.inl changed
    · have later : rows.find? (fun other => field other == key) = some row := by
        simpa [List.find?_cons, hit] using found
      simp only [modifyFirst, beq_iff_eq, hit, if_false, List.mem_cons, hypothesis distinct.2 later]
      constructor
      · rintro (equal | ⟨kept, differs⟩ | changed)
        · exact Or.inl ⟨Or.inl equal, equal ▸ hit⟩
        · exact Or.inl ⟨Or.inr kept, differs⟩
        · exact Or.inr changed
      · rintro (⟨equal | kept, differs⟩ | changed)
        · exact Or.inl equal
        · exact Or.inr (Or.inl ⟨kept, differs⟩)
        · exact Or.inr (Or.inr changed)

/-- With distinct keys, a change of the row of a key is a change of all rows with that key. -/
theorem modifyFirst_eq_map [DecidableEq κ] {field : α → κ} {key : κ} {change : α → α}
    {rows : List α} (distinct : (rows.map field).Nodup) :
    modifyFirst (fun row => field row == key) change rows =
      rows.map fun row => if field row = key then change row else row := by
  induction rows with
  | nil => rfl
  | cons head rows hypothesis =>
    rw [List.map_cons, List.nodup_cons] at distinct
    by_cases hit : field head = key
    · have rest : rows.map (fun row => if field row = key then change row else row) = rows := by
        refine (List.map_congr_left fun row member => if_neg ?_).trans (List.map_id rows)
        intro same
        exact distinct.1 (hit ▸ same ▸ List.mem_map_of_mem member)
      simp only [modifyFirst, hit, beq_self_eq_true, if_true, List.map_cons, rest]
    · simp only [modifyFirst, beq_iff_eq, hit, if_false, List.map_cons, hypothesis distinct.2]

/-- With distinct keys, a row is the only one of its key. -/
theorem filter_of_nodup [BEq κ] [LawfulBEq κ] {field : α → κ} {rows : List α} {row : α}
    (distinct : (rows.map field).Nodup) (member : row ∈ rows) :
    rows.filter (fun other => field other == field row) = [row] := by
  induction rows with
  | nil => exact absurd member List.not_mem_nil
  | cons head rows hypothesis =>
    rw [List.map_cons, List.nodup_cons] at distinct
    rcases List.mem_cons.mp member with rfl | behind
    · rw [List.filter_cons_of_pos (by exact beq_self_eq_true (field row)), List.filter_eq_nil_iff.mpr]
      intro other there same
      exact distinct.1 (beq_iff_eq.mp same ▸ List.mem_map_of_mem there)
    · rw [List.filter_cons_of_neg, hypothesis distinct.2 behind]
      intro same
      exact distinct.1 (beq_iff_eq.mp same ▸ List.mem_map_of_mem behind)

/-- With distinct keys, the row of a key is gone when it has been erased. -/
theorem mem_eraseP_iff [BEq κ] [LawfulBEq κ] {field : α → κ} {key : κ} {rows : List α} {other : α}
    (distinct : (rows.map field).Nodup) :
    other ∈ rows.eraseP (fun other => field other == key) ↔ other ∈ rows ∧ field other ≠ key := by
  induction rows with
  | nil => simp
  | cons head rows hypothesis =>
    rw [List.map_cons, List.nodup_cons] at distinct
    by_cases hit : field head = key
    · have apart : ∀ later ∈ rows, field later ≠ key := by
        intro later member equal
        exact distinct.1 (hit ▸ equal ▸ List.mem_map_of_mem member)
      rw [List.eraseP_cons_of_pos (by simpa using hit), List.mem_cons]
      constructor
      · intro member
        exact ⟨Or.inr member, apart other member⟩
      · rintro ⟨rfl | member, differs⟩
        · exact absurd hit differs
        · exact member
    · rw [List.eraseP_cons_of_neg (by simpa using hit), List.mem_cons, List.mem_cons,
        hypothesis distinct.2]
      constructor
      · rintro (rfl | ⟨member, differs⟩)
        · exact ⟨Or.inl rfl, hit⟩
        · exact ⟨Or.inr member, differs⟩
      · rintro ⟨rfl | member, differs⟩
        · exact Or.inl rfl
        · exact Or.inr ⟨member, differs⟩

/-- With distinct keys, an erasure is a filter. -/
theorem eraseP_eq_filter [DecidableEq κ] {field : α → κ} {key : κ} {rows : List α}
    (distinct : (rows.map field).Nodup) :
    rows.eraseP (fun other => field other == key) = rows.filter (fun other => field other ≠ key) := by
  induction rows with
  | nil => rfl
  | cons head rows hypothesis =>
    rw [List.map_cons, List.nodup_cons] at distinct
    by_cases hit : field head = key
    · have apart : ∀ later ∈ rows, field later ≠ key := by
        intro later member equal
        exact distinct.1 (hit ▸ equal ▸ List.mem_map_of_mem member)
      rw [List.eraseP_cons_of_pos (by simpa using hit), List.filter_cons_of_neg (by simpa using hit)]
      exact (List.filter_eq_self.mpr (by simpa using apart)).symm
    · rw [List.eraseP_cons_of_neg (by simpa using hit), List.filter_cons_of_pos (by simpa using hit),
        hypothesis distinct.2]

theorem nodup_eraseP {field : α → κ} {key : α → Bool} {rows : List α}
    (distinct : (rows.map field).Nodup) : ((rows.eraseP key).map field).Nodup :=
  distinct.sublist ((List.eraseP_sublist).map field)

theorem forall_append_singleton {property : α → Prop} {rows : List α} {row : α}
    (all : ∀ other ∈ rows, property other) (new : property row) :
    ∀ other ∈ rows ++ [row], property other := by
  intro other member
  rcases List.mem_append.mp member with old | added
  · exact all other old
  · exact (List.mem_singleton.mp added) ▸ new

/-- Every row whose key the table does not hold yet can be added to a table with
    distinct keys. -/
theorem nodup_append_fresh {field : α → κ} {rows : List α} {row : α}
    (distinct : (rows.map field).Nodup) (fresh : ∀ other ∈ rows, field other ≠ field row) :
    ((rows ++ [row]).map field).Nodup := by
  rw [List.map_append, List.map_singleton]
  refine List.nodup_append.mpr ⟨distinct, List.nodup_singleton _, ?_⟩
  intro value member last lastMember
  obtain ⟨other, otherMember, equal⟩ := List.mem_map.mp member
  rw [List.mem_singleton.mp lastMember, ← equal]
  exact fresh other otherMember

end DeipChain.Table
