import Mathlib.Algebra.Ring.Int.Defs
import Mathlib.Algebra.Ring.Nat
import Mathlib.Data.List.DropRight
import Mathlib.Data.Nat.Digits.Lemmas

/-!
# Texts and decimal numbers

A text is the list of its bytes. The decimal digits of a number are printed without leading
zeros and read back as its value. The first place of a byte splits a text into what comes
before and what comes after, and a text without white space at its ends is left alone by
trimming.
-/
namespace DeipChain.Decimals

abbrev Text := List UInt8

/-- The bytes of a text of ASCII characters. -/
def ascii (text : String) : Text :=
  text.toList.map Char.toUInt8

def blank : UInt8 := 32
def plus : UInt8 := 43
def minus : UInt8 := 45
def dot : UInt8 := 46
def one : UInt8 := 49

/-! ## Digits -/

def isDigit (byte : UInt8) : Bool :=
  48 ≤ byte && byte ≤ 57

def digit (number : Nat) : UInt8 :=
  UInt8.ofNat (48 + number)

def digitValue (byte : UInt8) : Nat :=
  byte.toNat - 48

/-- The number that a row of digits stands for, the most significant first. -/
def value (digits : Text) : Nat :=
  Nat.ofDigits 10 (digits.reverse.map digitValue)

/-- The digits of a number. -/
def decimal (number : Nat) : Text :=
  if number = 0 then [digit 0] else ((Nat.digits 10 number).map digit).reverse

theorem isDigit_iff {byte : UInt8} : isDigit byte = true ↔ 48 ≤ byte.toNat ∧ byte.toNat ≤ 57 := by
  simp [isDigit, UInt8.le_iff_toNat_le]

theorem toNat_digit {number : Nat} (small : number < 10) : (digit number).toNat = 48 + number := by
  rw [digit, UInt8.toNat_ofNat']
  omega

theorem isDigit_digit {number : Nat} (small : number < 10) : isDigit (digit number) = true := by
  rw [isDigit_iff, toNat_digit small]
  omega

theorem digitValue_digit {number : Nat} (small : number < 10) : digitValue (digit number) = number := by
  rw [digitValue, toNat_digit small]
  omega

theorem digitValue_lt {byte : UInt8} (counts : isDigit byte = true) : digitValue byte < 10 := by
  rw [isDigit_iff] at counts
  unfold digitValue
  omega

@[simp] theorem value_nil : value [] = 0 := rfl

theorem value_cons (byte : UInt8) (digits : Text) :
    value (byte :: digits) = digitValue byte * 10 ^ digits.length + value digits := by
  simp only [value, List.reverse_cons, List.map_append, Nat.ofDigits_append, List.length_map,
    List.length_reverse, List.map_cons, List.map_nil, Nat.ofDigits_singleton]
  ring

theorem value_lt {digits : Text} (all : digits.all isDigit = true) :
    value digits < 10 ^ digits.length := by
  induction digits with
  | nil => exact Nat.one_pos
  | cons byte digits hypothesis =>
    rw [List.all_cons, Bool.and_eq_true] at all
    have first := digitValue_lt all.1
    have rest := hypothesis all.2
    have top : digitValue byte * 10 ^ digits.length ≤ 9 * 10 ^ digits.length :=
      Nat.mul_le_mul_right _ (by omega)
    rw [value_cons, List.length_cons, Nat.pow_succ]
    omega

/-- A row with a one in front, as it pads a fraction. -/
theorem value_one_cons (digits : Text) :
    value (one :: digits) = 10 ^ digits.length + value digits := by
  rw [value_cons]
  exact congrArg (· + value digits) (Nat.one_mul _)

theorem decimal_ne_nil (number : Nat) : decimal number ≠ [] := by
  unfold decimal
  split
  · exact List.cons_ne_nil _ _
  · simpa [Nat.digits_eq_nil_iff_eq_zero] using ‹number ≠ 0›

theorem decimal_digits (number : Nat) : (decimal number).all isDigit = true := by
  unfold decimal
  split
  · rfl
  · simp only [List.all_reverse, List.all_map, List.all_eq_true, Function.comp]
    intro figure member
    exact isDigit_digit (Nat.digits_lt_base (by decide) member)

theorem value_decimal (number : Nat) : value (decimal number) = number := by
  unfold decimal
  split
  · rename_i zero
    rw [zero]
    rfl
  · have back : ((Nat.digits 10 number).map digit).map digitValue = Nat.digits 10 number := by
      rw [List.map_map]
      calc (Nat.digits 10 number).map (digitValue ∘ digit) = (Nat.digits 10 number).map id :=
            List.map_congr_left fun figure member =>
              digitValue_digit (Nat.digits_lt_base (by decide) member)
        _ = Nat.digits 10 number := List.map_id _
    rw [value, List.reverse_reverse, back, Nat.ofDigits_digits]

theorem decimal_injective : Function.Injective decimal :=
  Function.LeftInverse.injective value_decimal

theorem length_decimal_le_iff {number count : Nat} (positive : 0 < count) :
    (decimal number).length ≤ count ↔ number < 10 ^ count := by
  unfold decimal
  split
  · rename_i zero
    have power : 0 < 10 ^ count := Nat.pow_pos (by decide)
    rw [List.length_singleton, zero]
    omega
  · rw [List.length_reverse, List.length_map, Nat.digits_length_le_iff (by decide)]

/-- A number with a one in front of its last digits is printed as a one and these digits, with
    zeros where the rest is short. -/
theorem decimal_padded {places rest : Nat} (short : rest < 10 ^ places) :
    ∃ digits, decimal (10 ^ places + rest) = one :: digits ∧ digits.length = places ∧
      digits.all isDigit = true ∧ value digits = rest := by
  have positive : 0 < 10 ^ places := Nat.pow_pos (by decide)
  have count : (decimal (10 ^ places + rest)).length = places + 1 := by
    have figures : Nat.log 10 (10 ^ places + rest) = places := by
      apply Nat.log_eq_of_pow_le_of_lt_pow
      · exact Nat.le_add_right _ _
      · rw [Nat.pow_succ]
        omega
    rw [decimal, if_neg (by omega), List.length_reverse, List.length_map,
      Nat.length_digits 10 _ (by decide) (by omega), figures]
  have printed := decimal_digits (10 ^ places + rest)
  have read := value_decimal (10 ^ places + rest)
  cases shape : decimal (10 ^ places + rest) with
  | nil => exact absurd shape (decimal_ne_nil _)
  | cons first digits =>
    rw [shape, List.length_cons, Nat.add_right_cancel_iff] at count
    rw [shape, List.all_cons, Bool.and_eq_true] at printed
    rw [shape, value_cons, count] at read
    have below := value_lt printed.2
    rw [count] at below
    have single : digitValue first = 1 := by
      rcases Nat.lt_trichotomy (digitValue first) 1 with less | same | more
      · have none : digitValue first = 0 := by omega
        rw [none] at read
        omega
      · exact same
      · have double : 2 * 10 ^ places ≤ digitValue first * 10 ^ places := Nat.mul_le_mul_right _ more
        omega
    have leading : first = one := by
      have counts := isDigit_iff.mp printed.1
      apply UInt8.toNat_inj.mp
      unfold digitValue at single
      show first.toNat = 49
      omega
    rw [single] at read
    exact ⟨digits, by rw [leading], count, printed.2, by omega⟩

/-! ## Integers with a sign -/

/-- The number of a row of digits, if that is what the text is. -/
def natural (text : Text) : Option Nat :=
  if text ≠ [] ∧ text.all isDigit = true then some (value text) else none

/-- A decimal integer with or without a sign. -/
def integer : Text → Option Int
  | [] => none
  | first :: rest =>
    if first = minus then (natural rest).map fun number : Nat => -(number : Int)
    else if first = plus then (natural rest).map fun number : Nat => (number : Int)
    else (natural (first :: rest)).map fun number : Nat => (number : Int)

theorem natural_eq_some_iff {text : Text} {number : Nat} :
    natural text = some number ↔ text ≠ [] ∧ text.all isDigit = true ∧ value text = number := by
  unfold natural
  split <;> simp_all

/-- No sign is a digit. -/
theorem head_ne_of_digits {first sign : UInt8} {rest : Text} (all : (first :: rest).all isDigit = true)
    (other : isDigit sign = false) : first ≠ sign := by
  rw [List.all_cons, Bool.and_eq_true] at all
  rintro rfl
  exact Bool.false_ne_true (other.symm.trans all.1)

theorem integer_of_digits {digits : Text} (some_digits : digits ≠ [])
    (all : digits.all isDigit = true) : integer digits = some (value digits : Int) := by
  cases digits with
  | nil => exact absurd rfl some_digits
  | cons first rest =>
    have signless := head_ne_of_digits all (show isDigit minus = false from rfl)
    have plusless := head_ne_of_digits all (show isDigit plus = false from rfl)
    have read : natural (first :: rest) = some (value (first :: rest)) :=
      natural_eq_some_iff.mpr ⟨some_digits, all, rfl⟩
    rw [integer, if_neg signless, if_neg plusless, read]
    rfl

/-- How the sign of a number is written. -/
inductive Sign where
  | unsigned
  | positive
  | negative
deriving DecidableEq, Repr

def Sign.text : Sign → Text
  | .unsigned => []
  | .positive => [plus]
  | .negative => [minus]

def Sign.apply (sign : Sign) (number : Int) : Int :=
  if sign = .negative then -number else number

theorem Sign.append_inj {first second : Sign} {digits others : Text} (some_digits : digits ≠ [])
    (counted : digits.head?.all isDigit = true) (some_others : others ≠ [])
    (numbered : others.head?.all isDigit = true) (same : first.text ++ digits = second.text ++ others) :
    first = second ∧ digits = others := by
  cases digits with
  | nil => exact absurd rfl some_digits
  | cons head tail =>
    cases others with
    | nil => exact absurd rfl some_others
    | cons other rest =>
      have figure : isDigit head = true := counted
      have cipher : isDigit other = true := numbered
      cases first <;> cases second <;>
        simp only [Sign.text, List.nil_append, List.cons_append, List.cons.injEq, true_and] at same ⊢
      case unsigned.unsigned => exact same
      case positive.positive => exact same
      case negative.negative => exact same
      case unsigned.positive => exact absurd figure (by rw [same.1]; decide)
      case unsigned.negative => exact absurd figure (by rw [same.1]; decide)
      case positive.unsigned => exact absurd cipher (by rw [← same.1]; decide)
      case negative.unsigned => exact absurd cipher (by rw [← same.1]; decide)
      case positive.negative => exact absurd same.1 (by decide)
      case negative.positive => exact absurd same.1 (by decide)

/-- What is read as an integer is a row of digits behind at most one sign. -/
theorem integer_eq_some_iff {text : Text} {number : Int} :
    integer text = some number ↔ ∃ (sign : Sign) (digits : Text), digits ≠ [] ∧
      digits.all isDigit = true ∧ text = sign.text ++ digits ∧ number = sign.apply (value digits) := by
  constructor
  · intro read
    cases text with
    | nil => cases read
    | cons first rest =>
      rw [integer] at read
      split at read
      · rename_i negative
        obtain ⟨digits, counted, rfl⟩ := Option.map_eq_some_iff.mp read
        obtain ⟨some_digits, all, rfl⟩ := natural_eq_some_iff.mp counted
        exact ⟨.negative, rest, some_digits, all, by rw [negative]; rfl, rfl⟩
      · split at read
        · rename_i positive
          obtain ⟨digits, counted, rfl⟩ := Option.map_eq_some_iff.mp read
          obtain ⟨some_digits, all, rfl⟩ := natural_eq_some_iff.mp counted
          exact ⟨.positive, rest, some_digits, all, by rw [positive]; rfl, rfl⟩
        · obtain ⟨digits, counted, rfl⟩ := Option.map_eq_some_iff.mp read
          obtain ⟨some_digits, all, rfl⟩ := natural_eq_some_iff.mp counted
          exact ⟨.unsigned, first :: rest, some_digits, all, rfl, rfl⟩
  · rintro ⟨sign, digits, some_digits, all, rfl, rfl⟩
    have counted := natural_eq_some_iff.mpr ⟨some_digits, all, rfl⟩
    cases sign with
    | unsigned => exact integer_of_digits some_digits all
    | positive =>
      show integer (plus :: digits) = some (value digits : Int)
      rw [integer, if_neg (by decide), if_pos rfl, counted]
      rfl
    | negative =>
      show integer (minus :: digits) = some (-(value digits : Int))
      rw [integer, if_pos rfl, counted]
      rfl

/-! ## The first place of a byte -/

section Places

variable {byte : UInt8} {text before after : Text}

theorem idxOf?_append_cons (absent : byte ∉ before) :
    (before ++ byte :: after).idxOf? byte = some before.length := by
  rw [List.idxOf?_eq_some_iff]
  refine ⟨by simp, by simp, ?_⟩
  intro place earlier same
  rw [List.getElem_append_left earlier] at same
  exact absent (same ▸ List.getElem_mem earlier)

/-- What stands before and after the first place of a byte. -/
theorem exists_of_idxOf? {place : Nat} (found : text.idxOf? byte = some place) :
    ∃ before after, text = before ++ byte :: after ∧ byte ∉ before ∧ before.length = place := by
  obtain ⟨inside, same, earlier⟩ := List.idxOf?_eq_some_iff.mp found
  refine ⟨text.take place, text.drop (place + 1), ?_, ?_, List.length_take_of_le inside.le⟩
  · rw [← same, List.getElem_cons_drop, List.take_append_drop]
  · intro member
    obtain ⟨index, short, other⟩ := List.getElem_of_mem member
    rw [List.length_take_of_le inside.le] at short
    exact earlier index short (by rw [← other, List.getElem_take])

/-- A text splits in one way at the first place of a byte. -/
theorem append_cons_inj {others rest : Text} (absent : byte ∉ before) (missing : byte ∉ others)
    (same : before ++ byte :: after = others ++ byte :: rest) : before = others ∧ after = rest := by
  have places := @idxOf?_append_cons byte before after absent
  rw [same, idxOf?_append_cons missing, Option.some_inj] at places
  obtain ⟨front, back⟩ := List.append_inj same places.symm
  exact ⟨front, (List.cons.inj back).2⟩

end Places

/-! ## White space -/

def isSpace (byte : UInt8) : Bool :=
  byte == blank || (9 ≤ byte && byte ≤ 13)

theorem not_isSpace_of_isDigit {byte : UInt8} (digit : isDigit byte = true) :
    isSpace byte = false := by
  rw [isDigit_iff] at digit
  have solid : byte ≠ blank := by
    rintro rfl
    exact absurd digit.1 (by decide)
  simp [isSpace, solid, UInt8.le_iff_toNat_le]
  omega

def trim (text : Text) : Text :=
  (text.dropWhile isSpace).rdropWhile isSpace

/-- No white space at either end. -/
def Trimmed (text : Text) : Prop :=
  (∀ first ∈ text.head?, isSpace first = false) ∧ ∀ last ∈ text.getLast?, isSpace last = false

theorem trimmed_of_solid {text : Text} (solid : ∀ byte ∈ text, isSpace byte = false) : Trimmed text :=
  ⟨fun first leads => solid first (List.mem_of_head? leads),
    fun last ends => solid last (List.mem_of_getLast? ends)⟩

theorem trim_padded {lead body trail : Text} (before : lead.all isSpace = true)
    (trimmed : Trimmed body) (after : trail.all isSpace = true) :
    trim (lead ++ body ++ trail) = body := by
  rw [List.all_eq_true] at before after
  cases body with
  | nil =>
    have all : ∀ byte ∈ lead ++ [] ++ trail, isSpace byte = true := by
      intro byte member
      rw [List.append_nil, List.mem_append] at member
      exact member.elim (before byte) (after byte)
    rw [trim, List.dropWhile_eq_nil_iff.mpr all, List.rdropWhile_nil]
  | cons first rest =>
    have solid : isSpace first = false := trimmed.1 first rfl
    have front : (lead ++ (first :: rest) ++ trail).dropWhile isSpace = first :: rest ++ trail := by
      rw [List.append_assoc, List.dropWhile_append_of_pos before, List.cons_append,
        List.dropWhile_cons_of_neg (by simp [solid])]
    have back : (first :: rest ++ trail).rdropWhile isSpace = first :: rest := by
      have stop : (first :: rest).rdropWhile isSpace = first :: rest := by
        rw [List.rdropWhile_eq_self_iff]
        intro some_bytes
        rw [trimmed.2 _ (List.getLast?_eq_getLast_of_ne_nil some_bytes)]
        exact Bool.false_ne_true
      rw [List.rdropWhile, List.reverse_append, List.dropWhile_append_of_pos
        (fun byte member => after byte (List.mem_reverse.mp member))]
      exact stop
    rw [trim, front, back]

theorem exists_padding (text : Text) :
    ∃ lead trail, text = lead ++ trim text ++ trail ∧ lead.all isSpace = true ∧
      trail.all isSpace = true := by
  refine ⟨text.takeWhile isSpace, (text.dropWhile isSpace).rtakeWhile isSpace, ?_, ?_, ?_⟩
  · rw [trim, List.append_assoc, List.rdropWhile_append_rtakeWhile, List.takeWhile_append_dropWhile]
  · exact List.all_takeWhile
  · rw [List.all_eq_true]
    intro byte member
    exact List.mem_rtakeWhile_imp member

theorem solid_rdropWhile (text : Text) :
    ∀ last ∈ (text.rdropWhile isSpace).getLast?, isSpace last = false := by
  intro last ends
  have some_bytes : text.rdropWhile isSpace ≠ [] := by
    rintro none
    rw [none] at ends
    cases ends
  have stops := List.rdropWhile_last_not isSpace text some_bytes
  rw [Option.mem_def, List.getLast?_eq_getLast_of_ne_nil some_bytes, Option.some_inj] at ends
  exact Bool.eq_false_of_not_eq_true (ends ▸ stops)

theorem trimmed_trim (text : Text) : Trimmed (trim text) := by
  constructor
  · intro first leads
    obtain ⟨rest, whole⟩ := List.rdropWhile_prefix isSpace (text.dropWhile isSpace)
    have leading : ((text.dropWhile isSpace).rdropWhile isSpace).head? = some first := leads
    have front : (text.dropWhile isSpace).head? = some first := by
      rw [← whole, List.head?_append, leading]
      rfl
    have stops := List.head?_dropWhile_not isSpace text
    rwa [front] at stops
  · exact solid_rdropWhile (text.dropWhile isSpace)

end DeipChain.Decimals
