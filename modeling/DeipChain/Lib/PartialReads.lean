import Mathlib.Algebra.Order.Group.Nat
import Mathlib.Tactic.Common

/-!
# Exact reads made of partial ones

A partial read gives at least one element and at most as many as it is asked for; how many is
decided elsewhere. A loop of partial reads gives an exact number of elements.

`ReadStream` says what exact reads give: reading one number of elements and then another is reading
their sum. A call that `Serves` a stream gives the first elements of it, always a multiple of a
unit. The loop over such a call is the exact read of the stream (`read_eq`), whatever the numbers
that the partial reads give, and it fails exactly when not enough is available (`read_none`).
-/
namespace DeipChain.PartialReads

variable {A C S : Type}

/-- What is read from some contents, in multiples of a unit, and what is left. -/
structure ReadStream (A C : Type) where
  unit : Nat
  take : Nat → C → List A × C
  available : C → Nat
  take_zero : ∀ contents, take 0 contents = ([], contents)
  take_add : ∀ first second contents, unit ∣ first →
    take (first + second) contents =
      ((take first contents).1 ++ (take second (take first contents).2).1,
        (take second (take first contents).2).2)
  available_take : ∀ count contents, count ≤ available contents →
    available (take count contents).2 = available contents - count

/-- One round of reading: a number of elements up to a limit, if there are any. -/
abbrev Readsome (A S : Type) := Nat → S → Option (List A × S)

/-- The loop of partial reads until `count` elements are there, for as many rounds as are
given. -/
def readRounds (readsome : Readsome A S) : Nat → Nat → S → Option (List A × S)
  | _, 0, state => some ([], state)
  | 0, _ + 1, _ => none
  | rounds + 1, count, state =>
    match readsome count state with
    | none => none
    | some (elements, next) =>
      match readRounds readsome rounds (count - elements.length) next with
      | none => none
      | some (behind, last) => some (elements ++ behind, last)

/-- A read of exactly `count` elements: each round gives one at least, so there are no more
rounds than elements. -/
def read (readsome : Readsome A S) (count : Nat) (state : S) : Option (List A × S) :=
  readRounds readsome count count state

/-- A call gives the first elements of a stream. -/
structure Serves (stream : ReadStream A C) (contents : S → C) (readsome : Readsome A S) : Prop where
  returns : ∀ limit state, 0 < limit → stream.unit ∣ limit →
    limit ≤ stream.available (contents state) → ∃ result, readsome limit state = some result
  gives : ∀ limit state elements next, 0 < limit → stream.unit ∣ limit →
    readsome limit state = some (elements, next) →
      0 < elements.length ∧ elements.length ≤ limit ∧ stream.unit ∣ elements.length ∧
        elements.length ≤ stream.available (contents state) ∧
        stream.take elements.length (contents state) = (elements, contents next)

section Loop

variable {stream : ReadStream A C} {contents : S → C} {readsome : Readsome A S}

/-- The loop gives what the exact read gives.

Proof: by induction on the rounds. Each round takes elements off the front, and what the exact
read gives from there on is the rest. -/
theorem readRounds_eq (serves : Serves stream contents readsome) {rounds count : Nat} {state : S}
    (enough : count ≤ rounds) (whole : stream.unit ∣ count)
    (there : count ≤ stream.available (contents state)) :
    ∃ last, readRounds readsome rounds count state =
        some ((stream.take count (contents state)).1, last) ∧
      contents last = (stream.take count (contents state)).2 := by
  induction rounds generalizing count state with
  | zero =>
    obtain rfl : count = 0 := Nat.le_zero.mp enough
    rw [stream.take_zero]
    exact ⟨state, rfl, rfl⟩
  | succ rounds hypothesis =>
    rcases Nat.eq_zero_or_pos count with rfl | wanted
    · rw [stream.take_zero]
      exact ⟨state, rfl, rfl⟩
    · obtain ⟨⟨elements, next⟩, result⟩ := serves.returns count state wanted whole there
      obtain ⟨positive, most, units, present, taken⟩ :=
        serves.gives count state elements next wanted whole result
      have left := stream.available_take elements.length (contents state) present
      rw [taken] at left
      obtain ⟨last, behind, reached⟩ := @hypothesis (count - elements.length) next (by omega)
        (Nat.dvd_sub whole units) (by rw [left]; omega)
      have split := stream.take_add elements.length (count - elements.length) (contents state) units
      rw [Nat.add_sub_cancel' most, taken] at split
      obtain ⟨below, rfl⟩ : ∃ below, count = below + 1 := ⟨count - 1, by omega⟩
      refine ⟨last, ?_, ?_⟩
      · simp only [readRounds, result, behind, split]
      · rw [reached, split]

/-- It fails when not enough is available. -/
theorem readRounds_none (serves : Serves stream contents readsome) {rounds count : Nat} {state : S}
    (whole : stream.unit ∣ count) (lacking : stream.available (contents state) < count) :
    readRounds readsome rounds count state = none := by
  induction rounds generalizing count state with
  | zero =>
    obtain ⟨below, rfl⟩ : ∃ below, count = below + 1 := ⟨count - 1, by omega⟩
    rfl
  | succ rounds hypothesis =>
    obtain ⟨below, rfl⟩ : ∃ below, count = below + 1 := ⟨count - 1, by omega⟩
    unfold readRounds
    cases result : readsome (below + 1) state with
    | none => rfl
    | some pair =>
      obtain ⟨elements, next⟩ := pair
      obtain ⟨positive, most, units, present, taken⟩ :=
        serves.gives _ state elements next (Nat.succ_pos below) whole result
      have left := stream.available_take elements.length (contents state) present
      rw [taken] at left
      have short : stream.available (contents next) < below + 1 - elements.length := by
        rw [left]
        omega
      simp only [hypothesis (Nat.dvd_sub whole units) short]

theorem read_eq (serves : Serves stream contents readsome) {count : Nat} {state : S}
    (whole : stream.unit ∣ count) (there : count ≤ stream.available (contents state)) :
    ∃ last, read readsome count state = some ((stream.take count (contents state)).1, last) ∧
      contents last = (stream.take count (contents state)).2 :=
  readRounds_eq serves (Nat.le_refl count) whole there

theorem read_none (serves : Serves stream contents readsome) {count : Nat} {state : S}
    (whole : stream.unit ∣ count) (lacking : stream.available (contents state) < count) :
    read readsome count state = none :=
  readRounds_none serves whole lacking

end Loop

/-- A list that arrives in pieces: what has not been read of it, and how many elements more than
one the next reads find. Later reads find all that are left. -/
structure Source (A : Type) where
  incoming : List A
  arrivals : List Nat

/-- A partial read of the list. -/
def Source.readsome : Readsome A (Source A) := fun limit source =>
  match source.incoming with
  | [] => none
  | _ :: _ =>
    let count :=
      match source.arrivals with
      | [] => limit
      | more :: _ => min limit (more + 1)
    some (source.incoming.take count,
      { incoming := source.incoming.drop count, arrivals := source.arrivals.tail })

/-- A list as a stream. -/
def listStream (A : Type) : ReadStream A (List A) where
  unit := 1
  take count list := (list.take count, list.drop count)
  available := List.length
  take_zero _ := rfl
  take_add first second list _ := by
    rw [List.take_add, List.drop_drop]
  available_take count list _ := List.length_drop

theorem source_serves : Serves (listStream A) Source.incoming Source.readsome where
  returns limit source wanted _ there := by
    obtain ⟨incoming, arrivals⟩ := source
    cases incoming with
    | nil => exact absurd there (Nat.not_le.mpr wanted)
    | cons first rest => exact ⟨_, rfl⟩
  gives limit source elements next wanted _ result := by
    obtain ⟨incoming, arrivals⟩ := source
    cases incoming with
    | nil => cases result
    | cons first rest =>
      obtain ⟨count, positive, most, taken⟩ : ∃ count, 0 < count ∧ count ≤ limit ∧
          Source.readsome limit ⟨first :: rest, arrivals⟩ = some
            ((first :: rest).take count, ⟨(first :: rest).drop count, arrivals.tail⟩) := by
        cases arrivals with
        | nil => exact ⟨limit, wanted, Nat.le_refl limit, rfl⟩
        | cons more later =>
          exact ⟨min limit (more + 1), by omega, Nat.min_le_left _ _, rfl⟩
      rw [taken, Option.some.injEq, Prod.mk.injEq] at result
      obtain ⟨rfl, rfl⟩ := result
      have length : ((first :: rest).take count).length = min count (first :: rest).length :=
        List.length_take
      have total : 0 < (first :: rest).length := Nat.succ_pos _
      refine ⟨by omega, by omega, Nat.one_dvd _, by simp only [listStream]; omega, ?_⟩
      rcases Nat.le_total count (first :: rest).length with short | long
      · rw [length, Nat.min_eq_left short]
        rfl
      · rw [length, Nat.min_eq_right long]
        simp only [listStream, List.take_of_length_le long, List.drop_eq_nil_of_le long,
          List.take_length, List.drop_length]

/-- An exact read of a list that arrives in pieces. -/
theorem read_source {source : Source A} {count : Nat} (there : count ≤ source.incoming.length) :
    ∃ last, read Source.readsome count source = some (source.incoming.take count, last) ∧
      last.incoming = source.incoming.drop count :=
  read_eq source_serves (Nat.one_dvd count) there

theorem read_source_none {source : Source A} {count : Nat}
    (lacking : source.incoming.length < count) : read Source.readsome count source = none :=
  read_none source_serves (Nat.one_dvd count) lacking

end DeipChain.PartialReads
