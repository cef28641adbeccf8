import DeipChain.Lib.Decimals

/-!
# Account names

`is_valid_account_name` walks over a name with two cursors. One stands at the begin of a label,
the other at the point behind it or at the end of the name. A read beyond the name would be an
error of the program, so the walk is a computation that may fail, and it is shown never to.

The names that it accepts are those of the grammar: labels joined by points.
-/
namespace DeipChain.AccountNames

open DeipChain.Decimals

def hyphen : UInt8 := 45

/-- `DEIP_MIN_ACCOUNT_NAME_LENGTH` and `DEIP_MAX_ACCOUNT_NAME_LENGTH`. -/
def minAccountNameLength : Nat := 3
def maxAccountNameLength : Nat := 40

/-- `std::islower`. -/
def isLower (byte : UInt8) : Bool :=
  97 ≤ byte && byte ≤ 122

/-- What a label starts and ends with. -/
def isEnd (byte : UInt8) : Bool :=
  isLower byte || isDigit byte

/-- What a label consists of. -/
def isInner (byte : UInt8) : Bool :=
  isLower byte || isDigit byte || byte == hyphen

/-! ## The walk -/

/-- The difference of two values of `size_t`. -/
def sizeSub (first second : Nat) : Nat :=
  if second ≤ first then first - second else first + 2 ^ 64 - second

/-- `find_first_of('.', begin)`, or the length of the name if there is none. -/
def endOf (name : Text) (begin : Nat) : Nat :=
  match (name.drop begin).idxOf? dot with
  | some place => begin + place
  | none => name.length

/-- The loop over `count` bytes from an index on. -/
def checkMiddle (name : Text) : Nat → Nat → Option Bool
  | 0, _ => some true
  | count + 1, index => do
    let byte ← name[index]?
    if isInner byte then checkMiddle name count (index + 1) else return false

/-- The checks of the label between two cursors. -/
def checkLabel (name : Text) (begin stop : Nat) : Option Bool := do
  if sizeSub stop begin < 3 then return false
  let first ← name[begin]?
  if isEnd first = false then return false
  let last ← name[sizeSub stop 1]?
  if isEnd last = false then return false
  checkMiddle name (sizeSub stop 1 - (begin + 1)) (begin + 1)

theorem endOf_bounds {name : Text} {begin : Nat} (inside : endOf name begin ≠ name.length) :
    begin ≤ endOf name begin ∧ endOf name begin < name.length := by
  unfold endOf at inside ⊢
  split at inside
  · rename_i place found
    obtain ⟨short, _⟩ := List.idxOf?_eq_some_iff.mp found
    rw [List.length_drop] at short
    omega
  · exact absurd rfl inside

/-- The walk from the begin of a label. -/
def walk (name : Text) (begin : Nat) : Option Bool :=
  match checkLabel name begin (endOf name begin) with
  | some true =>
    if last : endOf name begin = name.length then some true
    else walk name (endOf name begin + 1)
  | other => other
termination_by name.length - begin
decreasing_by
  have bounds := endOf_bounds last
  omega

def isValidAccountName (name : Text) : Option Bool :=
  if name.length < minAccountNameLength then some false
  else if name.length > maxAccountNameLength then some false
  else walk name 0

/-! ## The grammar -/

/-- At least three letters, digits and hyphens, with no hyphen at an end. -/
structure IsLabel (label : Text) : Prop where
  length : 3 ≤ label.length
  first : ∀ byte ∈ label.head?, isEnd byte = true
  last : ∀ byte ∈ label.getLast?, isEnd byte = true
  inner : ∀ byte ∈ label, isInner byte = true

/-- One or more labels joined by points. -/
def IsJoined (name : Text) : Prop :=
  ∃ labels : List Text, labels ≠ [] ∧ (∀ label ∈ labels, IsLabel label) ∧
    name = List.intercalate [dot] labels

/-- The names of the grammar. -/
def IsAccountName (name : Text) : Prop :=
  minAccountNameLength ≤ name.length ∧ name.length ≤ maxAccountNameLength ∧ IsJoined name

theorem IsLabel.dot_notMem {label : Text} (good : IsLabel label) : dot ∉ label :=
  fun member => absurd (good.inner dot member) (by decide)

theorem isJoined_label_iff {label : Text} (absent : dot ∉ label) : IsJoined label ↔ IsLabel label := by
  constructor
  · rintro ⟨labels, some_labels, good, same⟩
    match labels, some_labels with
    | [only], _ =>
      rw [same]
      simpa using good
    | first :: second :: rest, _ =>
      have point : dot ∈ label := by
        rw [same, List.intercalate_cons_cons]
        simp
      exact absurd point absent
  · intro good
    exact ⟨[label], List.cons_ne_nil _ _, by simpa using good, by simp⟩

theorem isJoined_cons_iff {label rest : Text} (absent : dot ∉ label) :
    IsJoined (label ++ dot :: rest) ↔ IsLabel label ∧ IsJoined rest := by
  constructor
  · rintro ⟨labels, some_labels, good, same⟩
    match labels, some_labels with
    | [only], _ =>
      have alone : IsLabel only := by simpa using good
      have point : dot ∈ only := by
        have whole : label ++ dot :: rest = only := by simpa using same
        rw [← whole]
        simp
      exact absurd point alone.dot_notMem
    | first :: second :: others, _ =>
      rw [List.forall_mem_cons] at good
      rw [List.intercalate_cons_cons, List.append_assoc, List.singleton_append] at same
      obtain ⟨rfl, rfl⟩ := append_cons_inj absent good.1.dot_notMem same
      exact ⟨good.1, second :: others, List.cons_ne_nil _ _, good.2, rfl⟩
  · rintro ⟨good, labels, some_labels, others, rfl⟩
    refine ⟨label :: labels, List.cons_ne_nil _ _, List.forall_mem_cons.mpr ⟨good, others⟩, ?_⟩
    cases labels with
    | nil => exact absurd rfl some_labels
    | cons first rest => rw [List.intercalate_cons_cons, List.append_assoc, List.singleton_append]

/-! ## What the walk accepts -/

theorem isInner_of_isEnd {byte : UInt8} (ends : isEnd byte = true) : isInner byte = true := by
  unfold isEnd at ends
  rw [isInner, ends]
  rfl

theorem checkMiddle_eq (before middle after : Text) :
    checkMiddle (before ++ middle ++ after) middle.length before.length =
      some (middle.all isInner) := by
  induction middle generalizing before with
  | nil => rfl
  | cons byte middle hypothesis =>
    have here : (before ++ byte :: middle ++ after)[before.length]? = some byte := by simp
    have shift := hypothesis (before ++ [byte])
    rw [List.append_assoc before, List.singleton_append, List.length_append,
      List.length_singleton] at shift
    rw [List.length_cons, checkMiddle, here, List.all_cons]
    simp only [Option.bind_eq_bind, Option.bind_some]
    cases isInner byte with
    | false => rfl
    | true => exact shift

/-- A label is its first byte, what is between, and its last byte. -/
theorem isLabel_iff {first last : UInt8} {middle : Text} :
    IsLabel (first :: (middle ++ [last])) ↔
      middle ≠ [] ∧ isEnd first = true ∧ isEnd last = true ∧ middle.all isInner = true := by
  have final : (first :: (middle ++ [last])).getLast? = some last := by
    rw [List.getLast?_cons, List.getLast?_concat, Option.getD_some]
  rw [List.all_eq_true]
  constructor
  · rintro ⟨length, begins, ends, inner⟩
    refine ⟨?_, begins first rfl, ends last final, fun byte member => inner byte (by simp [member])⟩
    rintro rfl
    simp at length
  · rintro ⟨some_middle, begins, ends, inner⟩
    have length := List.length_pos_iff.mpr some_middle
    refine ⟨?_, ?_, ?_, ?_⟩
    · simp only [List.length_cons, List.length_append, List.length_nil]
      omega
    · rintro _ ⟨⟩
      exact begins
    · rw [final]
      rintro _ ⟨⟩
      exact ends
    · intro byte member
      simp only [List.mem_cons, List.mem_append, List.not_mem_nil, or_false] at member
      rcases member with rfl | inside | rfl
      · exact isInner_of_isEnd begins
      · exact inner byte inside
      · exact isInner_of_isEnd ends

/-- The checks read within the name and pass exactly for a label. -/
theorem checkLabel_spec (before label after : Text) :
    ∃ passed, checkLabel (before ++ label ++ after) before.length (before.length + label.length) =
      some passed ∧ (passed = true ↔ IsLabel label) := by
  have size : sizeSub (before.length + label.length) before.length = label.length := by
    rw [sizeSub, if_pos (Nat.le_add_right _ _), Nat.add_sub_cancel_left]
  unfold checkLabel
  rw [size]
  by_cases short : label.length < 3
  · refine ⟨false, by rw [if_pos short]; rfl, ?_⟩
    simp only [Bool.false_eq_true, false_iff]
    exact fun good => absurd good.length (by omega)
  · obtain ⟨first, rest, rfl⟩ := List.exists_cons_of_length_pos (by omega : 0 < label.length)
    obtain ⟨middle, last, rfl⟩ : ∃ middle last, rest = middle ++ [last] := by
      rcases List.eq_nil_or_concat rest with rfl | ⟨middle, last, rfl⟩
      · simp at short
      · exact ⟨middle, last, List.concat_eq_append⟩
    have some_middle : middle ≠ [] := by
      rintro rfl
      simp at short
    have begins : (before ++ first :: (middle ++ [last]) ++ after)[before.length]? = some first := by
      simp
    have place : sizeSub (before.length + (first :: (middle ++ [last])).length) 1 =
        before.length + (middle.length + 1) := by
      rw [List.length_cons, List.length_append, List.length_singleton, sizeSub, if_pos (by omega)]
      omega
    have ends : (before ++ first :: (middle ++ [last]) ++ after)[before.length + (middle.length + 1)]? =
        some last := by
      rw [List.append_assoc, List.getElem?_append_right (Nat.le_add_right _ _), Nat.add_sub_cancel_left]
      simp
    have count : before.length + (middle.length + 1) - (before.length + 1) = middle.length := by omega
    have inner := checkMiddle_eq (before ++ [first]) middle (last :: after)
    rw [List.length_append, List.length_singleton] at inner
    simp only [List.append_assoc, List.cons_append] at inner begins ends ⊢
    rw [if_neg short, begins, place, ends, count, isLabel_iff]
    simp only [Option.bind_eq_bind, Option.bind_some]
    cases front : isEnd first with
    | false => exact ⟨false, rfl, by simp⟩
    | true =>
      cases back : isEnd last with
      | false => exact ⟨false, rfl, by simp⟩
      | true =>
        refine ⟨middle.all isInner, ?_, by simp [some_middle]⟩
        simpa using inner

theorem endOf_point {before label rest : Text} (absent : dot ∉ label) :
    endOf (before ++ (label ++ dot :: rest)) before.length = before.length + label.length := by
  rw [endOf, List.drop_left, idxOf?_append_cons absent]

theorem endOf_last {before label : Text} (absent : dot ∉ label) :
    endOf (before ++ label) before.length = (before ++ label).length := by
  rw [endOf, List.drop_left, List.idxOf?_eq_none_iff.mpr absent]

/-- The walk from a place reads within the name and accepts labels joined by points. -/
theorem walk_spec (before rest : Text) :
    ∃ accepted, walk (before ++ rest) before.length = some accepted ∧
      (accepted = true ↔ IsJoined rest) := by
  induction count : rest.length using Nat.strong_induction_on generalizing before rest with
  | _ bound hypothesis =>
    cases place : rest.idxOf? dot with
    | none =>
      have absent : dot ∉ rest := List.idxOf?_eq_none_iff.mp place
      obtain ⟨passed, checked, sound⟩ := checkLabel_spec before rest []
      rw [List.append_nil, ← List.length_append, ← endOf_last absent] at checked
      refine ⟨passed, ?_, sound.trans (isJoined_label_iff absent).symm⟩
      rw [walk, checked]
      cases passed with
      | false => rfl
      | true => exact dif_pos (endOf_last absent)
    | some point =>
      obtain ⟨label, others, rfl, absent, _⟩ := exists_of_idxOf? place
      obtain ⟨passed, checked, sound⟩ := checkLabel_spec before label (dot :: others)
      rw [List.append_assoc, ← @endOf_point before label others absent] at checked
      rw [isJoined_cons_iff absent, ← sound]
      cases passed with
      | false =>
        refine ⟨false, ?_, by simp⟩
        rw [walk, checked]
      | true =>
        have shorter : others.length < bound := by
          rw [← count, List.length_append, List.length_cons]
          omega
        obtain ⟨accepted, walked, good⟩ :=
          hypothesis others.length shorter (before ++ (label ++ [dot])) others rfl
        refine ⟨accepted, ?_, by simpa using good⟩
        have inside : endOf (before ++ (label ++ dot :: others)) before.length ≠
            (before ++ (label ++ dot :: others)).length := by
          rw [endOf_point absent]
          simp
        rw [walk, checked]
        show (if last : _ then _ else _) = _
        rw [dif_neg inside, endOf_point absent, ← walked]
        congr 1
        · simp
        · simp [Nat.add_assoc]

/-- For every text the walk reads within it and ends, and it accepts the names of the grammar. -/
theorem isValidAccountName_iff (name : Text) :
    (∃ accepted, isValidAccountName name = some accepted) ∧
      (isValidAccountName name = some true ↔ IsAccountName name) := by
  unfold isValidAccountName IsAccountName
  by_cases short : name.length < minAccountNameLength
  · rw [if_pos short]
    refine ⟨⟨false, rfl⟩, ?_⟩
    simp only [Option.some.injEq, Bool.false_eq_true, false_iff]
    rintro ⟨long, _⟩
    omega
  · rw [if_neg short]
    by_cases long : name.length > maxAccountNameLength
    · rw [if_pos long]
      refine ⟨⟨false, rfl⟩, ?_⟩
      simp only [Option.some.injEq, Bool.false_eq_true, false_iff]
      rintro ⟨_, bounded, _⟩
      omega
    · rw [if_neg long]
      obtain ⟨accepted, walked, sound⟩ := walk_spec [] name
      rw [List.nil_append, List.length_nil] at walked
      refine ⟨⟨accepted, walked⟩, ?_⟩
      rw [walked, Option.some_inj, sound]
      exact ⟨fun joined => ⟨by omega, by omega, joined⟩, fun good => good.2.2⟩

end DeipChain.AccountNames
