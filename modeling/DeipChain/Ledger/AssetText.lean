import DeipChain.Lib.Decimals
import DeipChain.Lib.Words
import DeipChain.Ledger.Objects

/-!
# Amounts as texts

An asset is printed as its amount with the point before the decimals, a blank and the name of
the symbol; a percentage has `%` for the name. The parser trims the text, splits it at its first
blank and its first point, reads the two parts of the number apart and joins them in the raw
64-bit integer of `share_type`, where nothing checks for an overflow.

What it accepts is a number, a blank and a symbol between white space. It takes the fraction for
positive whatever the sign in front, keeps the lowest 64 bits of what is too large, and passes
over a plus sign, white space at the ends and a point that nothing follows.
-/
namespace DeipChain.Ledger

open DeipChain.Result DeipChain.Decimals

/-! ## The numbers of the machine -/

/-- The range of `int64_t`. -/
def InInt64 (number : Int) : Prop :=
  -2 ^ 63 ≤ number ∧ number < 2 ^ 63

instance (number : Int) : Decidable (InInt64 number) :=
  inferInstanceAs (Decidable (_ ∧ _))

/-- The lowest 64 bits as a signed number. -/
def wrap (number : Int) : Int :=
  number.bmod (2 ^ 64)

/-- `fc::to_int64`. -/
def toInt64 (text : Text) : Except String Int := do
  let number ← expect (integer text) "Couldn't parse int64_t"
  require (InInt64 number) "Couldn't parse int64_t"
  return number

/-- `fc::to_string`. -/
def int64Text (number : Int) : Text :=
  if number < 0 then minus :: decimal number.natAbs else decimal number.natAbs

/-! ## Symbols -/

/-- `asset::decimals`. -/
def decimalsOf (symbol : AssetSymbol) : Except String Nat := do
  require (symbol % 2 ^ 8 < 15) "result < 15"
  return symbol % 2 ^ 8

/-- `asset::symbol_name`: the bytes above the lowest up to the first that is zero. -/
def symbolName (symbol : AssetSymbol) : Except String Text := do
  require ((Words.word symbol)[7]? = some 0) "a[7] == 0"
  return ((Words.word symbol).drop 1).takeWhile (· ≠ 0)

/-- What `set_decimals` and the copy of a name make of a symbol that was zero. -/
def symbolOf (decimals : Nat) (name : Text) : AssetSymbol :=
  Words.fromBytes (UInt8.ofNat decimals :: name)

example : symbolOf 3 (ascii "DEIP") = deipSymbol := by decide

/-! ## Printing and parsing -/

/-- The number in front of the blank. -/
def amountText (amount : Int) (decimals : Nat) : Text :=
  int64Text (amount.tdiv (10 ^ decimals)) ++
    if 1 < 10 ^ decimals then
      dot :: (int64Text (10 ^ decimals + amount.tmod (10 ^ decimals))).drop 1
    else []

/-- The amount and its decimals, from a trimmed text with its first blank at `spacePos`. The
    length of the fraction is passed on as a byte. -/
def readAmount (text : Text) (spacePos : Nat) : Except String (Int × Nat) :=
  match text.idxOf? dot with
  | some dotPos => do
    require (dotPos < spacePos) "space_pos > dot_pos"
    let intpart := text.take dotPos
    let fractpart := one :: (text.drop (dotPos + 1)).take (spacePos - dotPos - 1)
    let decimals := (fractpart.length - 1) % 2 ^ 8
    require (decimals < 15) "d < 15"
    let whole ← toInt64 intpart
    let fraction ← toInt64 fractpart
    return (wrap (wrap (wrap (whole * 10 ^ decimals) + fraction) - 10 ^ decimals), decimals)
  | none => do
    let whole ← toInt64 (text.take spacePos)
    return (whole, 0)

/-- `asset::to_string`. -/
def Asset.toString (asset : Asset) : Except String Text := do
  let decimals ← decimalsOf asset.symbol
  let name ← Ledger.symbolName asset.symbol
  return amountText asset.amount decimals ++ blank :: name

/-- `asset::from_string`. -/
def Asset.fromString (source : Text) : Except String Asset := do
  let text := trim source
  let spacePos ← expect (text.idxOf? blank) "space_pos != std::string::npos"
  let (amount, decimals) ← readAmount text spacePos
  let name := text.drop (spacePos + 1)
  require (name.length ≤ 6) "symbol_size <= 6"
  return ⟨amount, symbolOf decimals name⟩

/-- `percent::symbol`. -/
def percentSign : UInt8 := 37

/-- `percent::to_string`. -/
def Percent.toString (percent : Percent) : Text :=
  amountText percent.amount percent.decimals ++ [blank, percentSign]

/-- `percent::from_string`. -/
def Percent.fromString (source : Text) : Except String Percent := do
  let text := trim source
  let spacePos ← expect (text.idxOf? blank) "space_pos != std::string::npos"
  require (text.drop (spacePos + 1) = [percentSign]) "percent_symbol == std::string(1, symbol)"
  let (amount, decimals) ← readAmount text spacePos
  return ⟨amount, decimals⟩

/-! ## Numbers as they are written -/

/-- A number in front of a blank: a sign or none, digits, and maybe a point with digits. -/
structure Number where
  sign : Sign
  whole : Text
  fraction : Option Text
  some_digits : whole ≠ []
  whole_digits : whole.all isDigit = true
  fraction_digits : ∀ digits ∈ fraction, digits.all isDigit = true

namespace Number

/-- What follows the digits before the point. -/
def fractionText (number : Number) : Text :=
  number.fraction.elim [] (dot :: ·)

def text (number : Number) : Text :=
  number.sign.text ++ (number.whole ++ number.fractionText)

/-- The count of digits behind the point. -/
def places (number : Number) : Nat :=
  (number.fraction.getD []).length

/-- The number in front of the point. -/
def integral (number : Number) : Int :=
  number.sign.apply (value number.whole)

/-- The digits behind the point. -/
def fractional (number : Number) : Nat :=
  value (number.fraction.getD [])

/-- The number that is written, times ten for each of its places. -/
def units (number : Number) : Int :=
  number.sign.apply (value number.whole * 10 ^ number.places + number.fractional)

/-- The form `[-]digits[.digits]`. -/
def Standard (number : Number) : Prop :=
  number.sign ≠ .positive ∧ number.fraction ≠ some []

/-- What the parser makes of a number. -/
def amount (number : Number) : Int :=
  wrap (number.integral * 10 ^ number.places + number.fractional)

variable (number : Number)

theorem head_digit : (number.whole ++ number.fractionText).head?.all isDigit = true := by
  obtain ⟨sign, whole, fraction, some_digits, all, others⟩ := number
  cases whole with
  | nil => exact absurd rfl some_digits
  | cons first rest =>
    rw [List.all_cons, Bool.and_eq_true] at all
    exact all.1

theorem mem_fractionText {byte : UInt8} (member : byte ∈ number.fractionText) :
    byte = dot ∨ isDigit byte = true := by
  obtain ⟨sign, whole, fraction, some_digits, all, others⟩ := number
  cases fraction with
  | none => cases member
  | some digits =>
    rcases List.mem_cons.mp member with rfl | inside
    · exact .inl rfl
    · exact .inr (List.all_eq_true.mp (others digits rfl) byte inside)

theorem mem_text {byte : UInt8} (member : byte ∈ number.text) :
    byte ∈ number.sign.text ∨ byte = dot ∨ isDigit byte = true := by
  rcases List.mem_append.mp member with signs | behind
  · exact .inl signs
  · rcases List.mem_append.mp behind with front | back
    · exact .inr (.inr (List.all_eq_true.mp number.whole_digits byte front))
    · exact .inr (number.mem_fractionText back)

theorem not_isSpace {byte : UInt8} (member : byte ∈ number.text) : isSpace byte = false := by
  rcases number.mem_text member with signs | rfl | digit
  · cases sign : number.sign with
    | unsigned => rw [sign] at signs; cases signs
    | positive => rw [sign] at signs; rw [List.mem_singleton.mp signs]; rfl
    | negative => rw [sign] at signs; rw [List.mem_singleton.mp signs]; rfl
  · rfl
  · exact not_isSpace_of_isDigit digit

theorem ext_of_parts {first second : Number} (sign : first.sign = second.sign)
    (whole : first.whole = second.whole) (fraction : first.fraction = second.fraction) :
    first = second := by
  cases first
  cases second
  simp_all

theorem blank_notMem_text : blank ∉ number.text :=
  fun member => Bool.false_ne_true ((number.not_isSpace member).symm.trans rfl)

theorem dot_notMem_whole : dot ∉ number.whole :=
  fun member => Bool.false_ne_true (List.all_eq_true.mp number.whole_digits dot member)

/-- A text is written by one number at most. -/
theorem text_injective : Function.Injective text := by
  intro first second same
  obtain ⟨sign, behind⟩ := Sign.append_inj
    (List.append_ne_nil_of_left_ne_nil first.some_digits _) first.head_digit
    (List.append_ne_nil_of_left_ne_nil second.some_digits _) second.head_digit same
  unfold fractionText at behind
  cases front : first.fraction with
  | none =>
    cases back : second.fraction with
    | none =>
      rw [front, back] at behind
      exact ext_of_parts sign (by simpa using behind) (front.trans back.symm)
    | some digits =>
      rw [front, back] at behind
      have point : dot ∈ first.whole := by
        have all : first.whole = second.whole ++ dot :: digits := by simpa using behind
        rw [all]
        exact List.mem_append_right _ List.mem_cons_self
      exact absurd point first.dot_notMem_whole
  | some digits =>
    cases back : second.fraction with
    | none =>
      rw [front, back] at behind
      have point : dot ∈ second.whole := by
        have all : first.whole ++ dot :: digits = second.whole := by simpa using behind
        rw [← all]
        exact List.mem_append_right _ List.mem_cons_self
      exact absurd point second.dot_notMem_whole
    | some others =>
      rw [front, back] at behind
      obtain ⟨whole, equal⟩ := append_cons_inj first.dot_notMem_whole second.dot_notMem_whole behind
      exact ext_of_parts sign whole (by rw [front, back, equal])

end Number

/-! ## What the parser reads -/

theorem toInt64_ok_iff {text : Text} {number : Int} :
    toInt64 text = .ok number ↔ integer text = some number ∧ InInt64 number := by
  simp only [toInt64, bind_ok_iff, expect_ok_iff, require_ok_iff, pure_ok_iff]
  constructor
  · rintro ⟨_, read, _, fits, rfl⟩
    exact ⟨read, fits⟩
  · rintro ⟨read, fits⟩
    exact ⟨number, read, ⟨⟩, fits, rfl⟩

/-- The one number of the range that differs by a multiple of 2^64. -/
theorem wrap_eq_iff {number other : Int} :
    wrap number = other ↔ InInt64 other ∧ (2 ^ 64 : Int) ∣ number - other := by
  unfold wrap InInt64
  rw [Int.bmod_eq_iff (by decide)]
  omega

theorem wrap_of_fits {number : Int} (fits : InInt64 number) : wrap number = number := by
  unfold InInt64 at fits
  apply Int.bmod_eq_of_le <;> omega

/-- The three steps of the parser in the raw integer come to one. -/
theorem wrap_steps (whole places fraction : Int) :
    wrap (wrap (wrap (whole * places) + (places + fraction)) - places) =
      wrap (whole * places + fraction) := by
  unfold wrap
  rw [Int.bmod_add_bmod, Int.bmod_sub_bmod]
  congr 1
  ring

theorem toInt64_one_cons_ok_iff {digits : Text} {number : Int} :
    toInt64 (one :: digits) = .ok number ↔
      digits.all isDigit = true ∧ number = 10 ^ digits.length + value digits ∧ InInt64 number := by
  have padded : ((value (one :: digits) : Nat) : Int) = 10 ^ digits.length + value digits := by
    rw [value_one_cons]
    push_cast
    rfl
  rw [toInt64_ok_iff, integer_eq_some_iff]
  constructor
  · rintro ⟨⟨sign, figures, _, all, same, rfl⟩, fits⟩
    cases sign with
    | unsigned =>
      have equal : figures = one :: digits := same.symm
      subst equal
      rw [List.all_cons, Bool.and_eq_true] at all
      exact ⟨all.2, padded, fits⟩
    | positive => exact absurd (List.cons.inj same).1 (by decide)
    | negative => exact absurd (List.cons.inj same).1 (by decide)
  · rintro ⟨all, rfl, fits⟩
    refine ⟨⟨.unsigned, one :: digits, List.cons_ne_nil _ _, ?_, rfl, padded.symm⟩, fits⟩
    rw [List.all_cons, all]
    rfl

/-- A one in front of digits fits the integer for up to fourteen digits, not for nineteen. -/
theorem padded_fits {digits : Text} (all : digits.all isDigit = true) (short : digits.length < 15) :
    InInt64 (10 ^ digits.length + value digits) := by
  have below := value_lt all
  have power : 10 ^ digits.length ≤ 10 ^ 14 := Nat.pow_le_pow_right (by decide) (by omega)
  have same : ((10 : Int) ^ digits.length) = ((10 ^ digits.length : Nat) : Int) := by push_cast; rfl
  unfold InInt64
  rw [same]
  omega

theorem length_of_padded_fits {digits : Text} (fits : InInt64 (10 ^ digits.length + value digits)) :
    digits.length < 19 := by
  by_contra many
  have power : 10 ^ 19 ≤ 10 ^ digits.length := Nat.pow_le_pow_right (by decide) (by omega)
  have same : ((10 : Int) ^ digits.length) = ((10 ^ digits.length : Nat) : Int) := by push_cast; rfl
  unfold InInt64 at fits
  rw [same] at fits
  omega

/-- A first point before the blank splits the number. -/
theorem readAmount_point {whole fraction after : Text} (absent : dot ∉ whole) :
    readAmount ((whole ++ dot :: fraction) ++ blank :: after) (whole ++ dot :: fraction).length = do
      require (fraction.length % 2 ^ 8 < 15) "d < 15"
      let integral ← toInt64 whole
      let fractional ← toInt64 (one :: fraction)
      return (wrap (wrap (wrap (integral * 10 ^ (fraction.length % 2 ^ 8)) + fractional) -
        10 ^ (fraction.length % 2 ^ 8)), fraction.length % 2 ^ 8) := by
  have place : ((whole ++ dot :: fraction) ++ blank :: after).idxOf? dot = some whole.length := by
    rw [List.append_assoc, List.cons_append]
    exact idxOf?_append_cons absent
  have front : ((whole ++ dot :: fraction) ++ blank :: after).take whole.length = whole := by
    rw [List.append_assoc, List.take_left]
  have back : (((whole ++ dot :: fraction) ++ blank :: after).drop (whole.length + 1)).take
      ((whole ++ dot :: fraction).length - whole.length - 1) = fraction := by
    have count : (whole ++ dot :: fraction).length - whole.length - 1 = fraction.length := by
      rw [List.length_append, List.length_cons]
      omega
    rw [count, List.append_assoc, List.drop_length_add_append, List.cons_append, List.drop_one,
      List.tail_cons, List.take_left]
  have earlier : whole.length < (whole ++ dot :: fraction).length := by simp
  simp only [readAmount, place, front, back, List.length_cons, Nat.add_sub_cancel]
  rw [require, if_pos earlier]
  rfl

/-- Without a point before the blank there must not be one after it. -/
theorem readAmount_whole {before after : Text} (absent : dot ∉ before) {result : Int × Nat} :
    readAmount (before ++ blank :: after) before.length = .ok result ↔
      dot ∉ after ∧ ∃ integral, toInt64 before = .ok integral ∧ result = (integral, 0) := by
  unfold readAmount
  cases place : (before ++ blank :: after).idxOf? dot with
  | none =>
    have nowhere := List.idxOf?_eq_none_iff.mp place
    have missing : dot ∉ after := fun member =>
      nowhere (List.mem_append_right _ (List.mem_cons_of_mem _ member))
    simp only [List.take_left, bind_ok_iff, pure_ok_iff]
    constructor
    · rintro ⟨integral, read, rfl⟩
      exact ⟨missing, integral, read, rfl⟩
    · rintro ⟨_, integral, read, rfl⟩
      exact ⟨integral, read, rfl⟩
  | some dotPos =>
    have late : ¬ dotPos < before.length := by
      intro early
      obtain ⟨inside, same, _⟩ := List.idxOf?_eq_some_iff.mp place
      rw [List.getElem_append_left early] at same
      exact absent (same ▸ List.getElem_mem early)
    have later : dot ∈ after := by
      obtain ⟨front, back, split, _, _⟩ := exists_of_idxOf? place
      have member : dot ∈ before ++ blank :: after := by
        rw [split]
        exact List.mem_append_right _ List.mem_cons_self
      rcases List.mem_append.mp member with here | there
      · exact absurd here absent
      · rcases List.mem_cons.mp there with strange | there
        · exact absurd strange (by decide)
        · exact there
    simp only [bind_ok_iff, require_ok_iff]
    constructor
    · rintro ⟨_, early, _⟩
      exact absurd early late
    · rintro ⟨missing, _⟩
      exact absurd later missing

namespace Number

variable (number : Number)

theorem dot_notMem_sign (sign : Sign) : dot ∉ sign.text := by
  cases sign <;> decide

theorem toInt64_whole (fits : InInt64 number.integral) :
    toInt64 (number.sign.text ++ number.whole) = .ok number.integral := by
  rw [toInt64_ok_iff, integer_eq_some_iff]
  exact ⟨⟨number.sign, number.whole, number.some_digits, number.whole_digits, rfl, rfl⟩, fits⟩

theorem dot_notMem_front : dot ∉ number.sign.text ++ number.whole := by
  rw [List.mem_append, not_or]
  exact ⟨dot_notMem_sign _, number.dot_notMem_whole⟩

end Number

/-- The parser reads a number that has up to fourteen places and fits in front of its point. -/
theorem readAmount_ok_iff {before after : Text} {result : Int × Nat} :
    readAmount (before ++ blank :: after) before.length = .ok result ↔
      ∃ number : Number, number.text = before ∧ (number.fraction = none → dot ∉ after) ∧
        number.places < 15 ∧ InInt64 number.integral ∧ result = (number.amount, number.places) := by
  cases place : before.idxOf? dot with
  | none =>
    have absent : dot ∉ before := List.idxOf?_eq_none_iff.mp place
    rw [readAmount_whole absent]
    constructor
    · rintro ⟨missing, integral, read, rfl⟩
      obtain ⟨parsed, fits⟩ := toInt64_ok_iff.mp read
      obtain ⟨sign, digits, some_digits, all, rfl, rfl⟩ := integer_eq_some_iff.mp parsed
      refine ⟨⟨sign, digits, none, some_digits, all, by simp⟩, ?_, fun _ => missing, ?_, fits, ?_⟩
      · simp [Number.text, Number.fractionText]
      · exact Nat.zero_lt_succ _
      · have same : wrap (sign.apply (value digits)) = sign.apply (value digits) := wrap_of_fits fits
        simp [Number.amount, Number.integral, Number.places, Number.fractional, same]
    · rintro ⟨number, rfl, missing, _, fits, rfl⟩
      cases fraction : number.fraction with
      | none =>
        refine ⟨missing fraction, number.integral, ?_, ?_⟩
        · simpa [Number.text, Number.fractionText, fraction] using number.toInt64_whole fits
        · simp [Number.amount, Number.places, Number.fractional, fraction, wrap_of_fits fits]
      | some digits =>
        have point : dot ∈ number.text := by simp [Number.text, Number.fractionText, fraction]
        exact absurd point absent
  | some dotPos =>
    obtain ⟨front, digits, rfl, absent, _⟩ := exists_of_idxOf? place
    rw [readAmount_point absent]
    simp only [bind_ok_iff, require_ok_iff, pure_ok_iff]
    constructor
    · rintro ⟨_, short, integral, read, fractional, padded, rfl⟩
      obtain ⟨parsed, fits⟩ := toInt64_ok_iff.mp read
      obtain ⟨sign, figures, some_digits, all, rfl, rfl⟩ := integer_eq_some_iff.mp parsed
      obtain ⟨others, rfl, room⟩ := toInt64_one_cons_ok_iff.mp padded
      have few := length_of_padded_fits room
      have same : digits.length % 2 ^ 8 = digits.length := Nat.mod_eq_of_lt (by omega)
      rw [same] at short ⊢
      refine ⟨⟨sign, figures, some digits, some_digits, all, ?_⟩, ?_, ?_, short, fits, ?_⟩
      · rintro _ ⟨⟩
        exact others
      · simp [Number.text, Number.fractionText]
      · intro none
        cases none
      · rw [wrap_steps]
        rfl
    · rintro ⟨number, same, _, short, fits, rfl⟩
      cases fraction : number.fraction with
      | none =>
        have point : dot ∈ number.sign.text ++ number.whole := by
          have all : number.sign.text ++ number.whole = front ++ dot :: digits := by
            simpa [Number.text, Number.fractionText, fraction] using same
          rw [all]
          exact List.mem_append_right _ List.mem_cons_self
        exact absurd point number.dot_notMem_front
      | some figures =>
        have split : (number.sign.text ++ number.whole) ++ dot :: figures = front ++ dot :: digits := by
          simpa [Number.text, Number.fractionText, fraction] using same
        obtain ⟨rfl, rfl⟩ := append_cons_inj number.dot_notMem_front absent split
        have count : number.places = figures.length := by simp [Number.places, fraction]
        have all := number.fraction_digits figures fraction
        rw [count] at short
        have low : figures.length % 2 ^ 8 = figures.length := Nat.mod_eq_of_lt (by omega)
        refine ⟨⟨⟩, by omega, number.integral, number.toInt64_whole fits,
          10 ^ figures.length + value figures, ?_, ?_⟩
        · exact toInt64_one_cons_ok_iff.mpr ⟨all, rfl, padded_fits all short⟩
        · rw [low, wrap_steps]
          simp [Number.amount, Number.places, Number.fractional, fraction]

/-! ## What the parser accepts -/

/-- A number, a blank and a symbol between white space, with no point in the symbol unless the
    number has one. The number has up to fourteen places and fits in front of its point. -/
structure Spelling where
  lead : Text
  number : Number
  symbol : Text
  trail : Text
  lead_space : lead.all isSpace = true
  trail_space : trail.all isSpace = true
  some_symbol : symbol ≠ []
  solid : ∀ last ∈ symbol.getLast?, isSpace last = false
  pointless : number.fraction = none → dot ∉ symbol
  short : number.places < 15
  fits : InInt64 number.integral

namespace Spelling

/-- What is left when the white space at the ends is gone. -/
def core (spelling : Spelling) : Text :=
  spelling.number.text ++ blank :: spelling.symbol

def text (spelling : Spelling) : Text :=
  spelling.lead ++ spelling.core ++ spelling.trail

end Spelling

namespace Number

variable (number : Number)

theorem text_ne_nil : number.text ≠ [] :=
  List.append_ne_nil_of_right_ne_nil _ (List.append_ne_nil_of_left_ne_nil number.some_digits _)

/-- A number and a symbol that does not end in white space leave nothing to trim. -/
theorem trimmed_text {symbol : Text} (some_symbol : symbol ≠ [])
    (solid : ∀ last ∈ symbol.getLast?, isSpace last = false) :
    Trimmed (number.text ++ blank :: symbol) := by
  constructor
  · intro first leads
    cases shape : number.text with
    | nil => exact absurd shape number.text_ne_nil
    | cons head tail =>
      have member : head ∈ number.text := by
        rw [shape]
        exact List.mem_cons_self
      rw [shape] at leads
      exact Option.mem_some.mp leads ▸ number.not_isSpace member
  · intro last ends
    apply solid
    rwa [List.getLast?_append_of_ne_nil _ (List.cons_ne_nil _ _),
      List.getLast?_cons_of_ne_nil some_symbol] at ends

theorem amount_eq_units_iff (short : number.places < 15) :
    number.amount = number.units ↔
      (number.sign = .negative → number.fractional = 0) ∧ InInt64 number.units := by
  have small : number.fractional < 10 ^ 14 := by
    have digits : (number.fraction.getD []).all isDigit = true := by
      cases fraction : number.fraction with
      | none => rfl
      | some digits => exact number.fraction_digits digits fraction
    exact (value_lt digits).trans_le (Nat.pow_le_pow_right (by decide) (Nat.le_of_lt_succ short))
  rw [amount, wrap_eq_iff, and_comm]
  refine and_congr_left fun _ => ?_
  by_cases negative : number.sign = .negative
  · -- the parser adds the fraction where the number takes it away
    have twice : number.integral * 10 ^ number.places + number.fractional - number.units =
        2 * number.fractional := by
      simp only [integral, units, Sign.apply, if_pos negative]
      ring
    rw [twice]
    constructor
    · intro divides _
      omega
    · intro none
      rw [none negative]
      exact dvd_zero _
  · have same : number.integral * 10 ^ number.places + number.fractional - number.units = 0 := by
      simp only [integral, units, Sign.apply, if_neg negative]
      ring
    rw [same]
    exact ⟨fun _ sign => absurd sign negative, fun _ => dvd_zero _⟩

end Number

theorem Spelling.trim_text (spelling : Spelling) : trim spelling.text = spelling.core :=
  trim_padded spelling.lead_space
    (spelling.number.trimmed_text spelling.some_symbol spelling.solid) spelling.trail_space

/-- The parts of a text that the parser gets through with. -/
theorem exists_spelling {source before after : Text} {result : Int × Nat}
    (trimmed : trim source = before ++ blank :: after)
    (read : readAmount (before ++ blank :: after) before.length = .ok result) :
    ∃ spelling : Spelling, spelling.text = source ∧ spelling.symbol = after ∧
      spelling.number.text = before ∧ result = (spelling.number.amount, spelling.number.places) := by
  obtain ⟨lead, trail, padded, lead_space, trail_space⟩ := exists_padding source
  obtain ⟨number, rfl, pointless, short, fits, rfl⟩ := readAmount_ok_iff.mp read
  have ends := (trimmed_trim source).2
  rw [trimmed, List.getLast?_append_of_ne_nil _ (List.cons_ne_nil _ _)] at ends
  have some_symbol : after ≠ [] := by
    rintro rfl
    exact absurd (ends blank rfl) (by decide)
  rw [List.getLast?_cons_of_ne_nil some_symbol] at ends
  refine ⟨⟨lead, number, after, trail, lead_space, trail_space, some_symbol, ends, pointless, short,
    fits⟩, ?_, rfl, rfl, rfl⟩
  rw [Spelling.text, Spelling.core, ← trimmed]
  exact padded.symm

theorem Spelling.readAmount (spelling : Spelling) :
    Ledger.readAmount spelling.core spelling.number.text.length =
      .ok (spelling.number.amount, spelling.number.places) :=
  readAmount_ok_iff.mpr ⟨spelling.number, rfl, spelling.pointless, spelling.short, spelling.fits, rfl⟩

theorem Spelling.blankPos (spelling : Spelling) :
    spelling.core.idxOf? blank = some spelling.number.text.length :=
  idxOf?_append_cons spelling.number.blank_notMem_text

theorem Spelling.drop_core (spelling : Spelling) :
    spelling.core.drop (spelling.number.text.length + 1) = spelling.symbol := by
  rw [Spelling.core, List.drop_length_add_append, List.drop_one, List.tail_cons]

theorem Asset.fromString_ok_iff {source : Text} {asset : Asset} :
    Asset.fromString source = .ok asset ↔ ∃ spelling : Spelling, spelling.text = source ∧
      spelling.symbol.length ≤ 6 ∧
      asset = ⟨spelling.number.amount, symbolOf spelling.number.places spelling.symbol⟩ := by
  simp only [Asset.fromString, bind_ok_iff, expect_ok_iff, require_ok_iff, pure_ok_iff]
  constructor
  · rintro ⟨spacePos, found, result, read, _, short, rfl⟩
    obtain ⟨before, after, split, _, rfl⟩ := exists_of_idxOf? found
    rw [split] at read short ⊢
    obtain ⟨spelling, written, rfl, rfl, rfl⟩ := exists_spelling split read
    have after := spelling.drop_core
    rw [Spelling.core] at after
    rw [after] at short ⊢
    exact ⟨spelling, written, short, rfl⟩
  · rintro ⟨spelling, rfl, short, rfl⟩
    rw [spelling.trim_text]
    refine ⟨_, spelling.blankPos, _, spelling.readAmount, ⟨⟩, ?_, ?_⟩
    · rwa [spelling.drop_core]
    · rw [spelling.drop_core]

theorem Percent.fromString_ok_iff {source : Text} {percent : Percent} :
    Percent.fromString source = .ok percent ↔ ∃ spelling : Spelling, spelling.text = source ∧
      spelling.symbol = [percentSign] ∧
      percent = ⟨spelling.number.amount, spelling.number.places⟩ := by
  simp only [Percent.fromString, bind_ok_iff, expect_ok_iff, require_ok_iff, pure_ok_iff]
  constructor
  · rintro ⟨spacePos, found, _, symbol, result, read, rfl⟩
    obtain ⟨before, after, split, _, rfl⟩ := exists_of_idxOf? found
    rw [split] at read symbol
    obtain ⟨spelling, written, rfl, rfl, rfl⟩ := exists_spelling split read
    have after := spelling.drop_core
    rw [Spelling.core] at after
    rw [after] at symbol
    exact ⟨spelling, written, symbol, rfl⟩
  · rintro ⟨spelling, rfl, symbol, rfl⟩
    rw [spelling.trim_text]
    refine ⟨_, spelling.blankPos, ⟨⟩, ?_, _, spelling.readAmount, rfl⟩
    rwa [spelling.drop_core]

/-! ## Printing and reading back -/

/-- A name of one to six bytes without white space, points and zeros. -/
structure PlainName (name : Text) : Prop where
  some_bytes : name ≠ []
  short : name.length ≤ 6
  solid : ∀ byte ∈ name, isSpace byte = false
  pointless : dot ∉ name
  nonzero : (0 : UInt8) ∉ name

theorem word_symbolOf {decimals : Nat} {name : Text} (short : name.length ≤ 6) :
    Words.word (symbolOf decimals name) =
      UInt8.ofNat decimals :: (name ++ List.replicate (7 - name.length) 0) := by
  have fits : (UInt8.ofNat decimals :: name).length ≤ 8 := by
    rw [List.length_cons]
    omega
  rw [Words.word, symbolOf, Words.toBytes_fromBytes fits, List.length_cons, List.cons_append]
  congr 3
  omega

theorem decimalsOf_symbolOf {decimals : Nat} (few : decimals < 15) (name : Text) :
    decimalsOf (symbolOf decimals name) = .ok decimals := by
  have low : symbolOf decimals name % 2 ^ 8 = decimals := by
    have byte : (UInt8.ofNat decimals).toNat = decimals := by
      rw [UInt8.toNat_ofNat']
      omega
    rw [symbolOf, Words.fromBytes, byte]
    omega
  rw [decimalsOf, low, require, if_pos few]
  rfl

/-- A name comes back up to the first zero in it. -/
theorem symbolName_symbolOf (decimals : Nat) {name : Text} (short : name.length ≤ 6) :
    symbolName (symbolOf decimals name) = .ok (name.takeWhile (· ≠ 0)) := by
  have last : (Words.word (symbolOf decimals name))[7]? = some 0 := by
    rw [word_symbolOf short, List.getElem?_cons_succ, List.getElem?_append_right short,
      List.getElem?_replicate, if_pos (by omega)]
  have zeros : (List.replicate (7 - name.length) (0 : UInt8)).takeWhile (· ≠ 0) = [] := by
    cases 7 - name.length with
    | zero => rfl
    | succ count => rfl
  rw [symbolName, last, require, if_pos rfl, word_symbolOf short, List.drop_one, List.tail_cons]
  show Except.ok _ = Except.ok _
  congr 1
  rw [List.takeWhile_append, zeros, List.append_nil]
  split
  · rename_i whole
    exact ((List.takeWhile_prefix _).eq_of_length whole).symm
  · rfl

theorem int64Text_natCast (number : Nat) : int64Text number = decimal number := by
  rw [int64Text, if_neg (by omega), Int.natAbs_natCast]

/-- The number that is printed for an amount. -/
theorem exists_number {amount decimals : Nat} (fits : amount < 2 ^ 63) (few : decimals < 15) :
    ∃ number : Number, number.text = amountText amount decimals ∧ number.places = decimals ∧
      InInt64 number.integral ∧ number.amount = amount := by
  have scale : ((10 : Int) ^ decimals) = ((10 ^ decimals : Nat) : Int) := by push_cast; rfl
  have whole : amountText amount decimals = decimal (amount / 10 ^ decimals) ++
      if 1 < 10 ^ decimals then dot :: (decimal (10 ^ decimals + amount % 10 ^ decimals)).drop 1
      else [] := by
    rw [amountText, scale, ← Int.ofNat_tdiv, ← Int.ofNat_tmod, ← Nat.cast_add, int64Text_natCast,
      int64Text_natCast]
  have front : InInt64 ((amount / 10 ^ decimals : Nat) : Int) := by
    have less := Nat.div_le_self amount (10 ^ decimals)
    unfold InInt64
    generalize amount / 10 ^ decimals = quotient at less
    omega
  cases decimals with
  | zero =>
    refine ⟨⟨.unsigned, decimal amount, none, decimal_ne_nil _, decimal_digits _, by simp⟩, ?_, rfl,
      ?_, ?_⟩
    · rw [whole]
      simp [Number.text, Number.fractionText, Sign.text]
    · simpa [Number.integral, Sign.apply, value_decimal] using front
    · have same : wrap (amount : Int) = amount := wrap_of_fits (by simpa using front)
      simpa [Number.amount, Number.integral, Number.places, Number.fractional, Sign.apply,
        value_decimal] using same
  | succ places =>
    obtain ⟨digits, printed, count, all, rest⟩ :=
      decimal_padded (Nat.mod_lt amount (Nat.pow_pos (n := places + 1) (by decide : 0 < 10)))
    refine ⟨⟨.unsigned, decimal (amount / 10 ^ (places + 1)), some digits, decimal_ne_nil _,
      decimal_digits _, ?_⟩, ?_, count, ?_, ?_⟩
    · rintro _ ⟨⟩
      exact all
    · rw [whole, if_pos (Nat.one_lt_pow (by omega) (by decide)), printed]
      rfl
    · simpa [Number.integral, Sign.apply, value_decimal] using front
    · have parts : ((amount / 10 ^ (places + 1) : Nat) : Int) * 10 ^ (places + 1) +
          ((amount % 10 ^ (places + 1) : Nat) : Int) = amount := by
        rw [scale]
        exact_mod_cast Nat.div_add_mod' amount (10 ^ (places + 1))
      have same : wrap (amount : Int) = amount := wrap_of_fits (by unfold InInt64; omega)
      rw [Number.amount]
      show wrap (((value (decimal (amount / 10 ^ (places + 1))) : Nat) : Int) * 10 ^ digits.length +
        ((value digits : Nat) : Int)) = amount
      rw [value_decimal, count, rest, parts, same]

/-- A number that is printed before a plain name, as the parser finds it. -/
theorem exists_printed {amount decimals : Nat} {name : Text} (fits : amount < 2 ^ 63)
    (few : decimals < 15) (some_bytes : name ≠ [])
    (solid : ∀ last ∈ name.getLast?, isSpace last = false) (pointless : decimals = 0 → dot ∉ name) :
    ∃ spelling : Spelling, spelling.text = amountText amount decimals ++ blank :: name ∧
      spelling.symbol = name ∧ spelling.number.places = decimals ∧
      spelling.number.amount = amount := by
  obtain ⟨number, printed, places, front, same⟩ := exists_number fits few
  have whole : number.fraction = none → dot ∉ name := by
    intro none
    apply pointless
    rw [← places, Number.places, none]
    rfl
  refine ⟨⟨[], number, name, [], rfl, rfl, some_bytes, solid, whole, places ▸ few, front⟩, ?_, rfl,
    places, same⟩
  rw [Spelling.text, Spelling.core, ← printed, List.nil_append, List.append_nil]

/-- An amount from zero to the largest, of a symbol with up to fourteen decimals and a plain
    name. -/
structure Asset.Plain (asset : Asset) : Prop where
  nonneg : 0 ≤ asset.amount
  fits : asset.amount < 2 ^ 63
  named : ∃ (decimals : Nat) (name : Text), decimals < 15 ∧ PlainName name ∧
    asset.symbol = symbolOf decimals name

/-- A percentage from zero on. -/
structure Percent.Plain (percent : Percent) : Prop where
  nonneg : 0 ≤ percent.amount
  fits : percent.amount < 2 ^ 63
  few : percent.decimals < 15

/-- An amount is read back if its name does not end in white space, has no zero, and has no point
    where there are no decimals. -/
theorem reads_back {amount : Int} {decimals : Nat} {name : Text} (nonneg : 0 ≤ amount)
    (fits : amount < 2 ^ 63) (few : decimals < 15) (some_bytes : name ≠ []) (short : name.length ≤ 6)
    (nonzero : (0 : UInt8) ∉ name) (solid : ∀ last ∈ name.getLast?, isSpace last = false)
    (pointless : decimals = 0 → dot ∉ name) :
    ∃ text, (Asset.mk amount (symbolOf decimals name)).toString = .ok text ∧
      Asset.fromString text = .ok ⟨amount, symbolOf decimals name⟩ := by
  obtain ⟨natural, rfl⟩ := Int.eq_ofNat_of_zero_le nonneg
  have whole : name.takeWhile (· ≠ 0) = name := by
    rw [List.takeWhile_eq_self_iff]
    intro byte member
    exact decide_eq_true fun zero => nonzero (zero ▸ member)
  obtain ⟨spelling, written, rfl, places, same⟩ :=
    exists_printed (by exact_mod_cast fits) few some_bytes solid pointless
  refine ⟨spelling.text, ?_, ?_⟩
  · rw [Asset.toString, decimalsOf_symbolOf few, symbolName_symbolOf _ short, whole, written]
    rfl
  · rw [Asset.fromString_ok_iff]
    exact ⟨spelling, rfl, short, by rw [same, places]⟩

theorem Asset.Plain.reads_back {asset : Asset} (plain : asset.Plain) :
    ∃ text, asset.toString = .ok text ∧ Asset.fromString text = .ok asset := by
  obtain ⟨amount, symbol⟩ := asset
  obtain ⟨nonneg, fits, decimals, name, few, named, rfl⟩ := plain
  exact Ledger.reads_back nonneg fits few named.some_bytes named.short named.nonzero
    (fun byte ends => named.solid byte (List.mem_of_getLast? ends)) fun _ => named.pointless

theorem Percent.Plain.reads_back {percent : Percent} (plain : percent.Plain) :
    Percent.fromString percent.toString = .ok percent := by
  obtain ⟨amount, decimals⟩ := percent
  obtain ⟨nonneg, fits, few⟩ := plain
  obtain ⟨natural, rfl⟩ := Int.eq_ofNat_of_zero_le nonneg
  have small : natural < 2 ^ 63 := by exact_mod_cast (show (natural : Int) < 2 ^ 63 from fits)
  obtain ⟨spelling, written, symbol, places, same⟩ := @exists_printed natural decimals [percentSign]
    small few (List.cons_ne_nil _ _) (by decide +kernel) (fun _ => by decide)
  rw [Percent.fromString_ok_iff]
  exact ⟨spelling, written, symbol, by rw [same, places]⟩

/-- Plain amounts and percentages are read back as they were, so that different assets have
    different texts. -/
theorem fromString_toString :
    (∀ asset : Asset, asset.Plain →
      ∃ text, asset.toString = .ok text ∧ Asset.fromString text = .ok asset) ∧
    (∀ first second : Asset, first.Plain → second.Plain → first ≠ second →
      first.toString ≠ second.toString) ∧
    ∀ percent : Percent, percent.Plain → Percent.fromString percent.toString = .ok percent := by
  refine ⟨fun asset plain => plain.reads_back, ?_, fun percent plain => plain.reads_back⟩
  intro first second plain other distinct same
  obtain ⟨text, printed, read⟩ := plain.reads_back
  obtain ⟨another, written, parsed⟩ := other.reads_back
  rw [printed, written, Except.ok.injEq] at same
  rw [same, parsed, Except.ok.injEq] at read
  exact distinct read.symm

theorem Sample.deip_reads_back : (∃ text, (Asset.mk 7005 deipSymbol).toString = .ok text ∧
      Asset.fromString text = .ok ⟨7005, deipSymbol⟩) ∧
    Percent.fromString (Percent.mk 1250 2).toString = .ok ⟨1250, 2⟩ := by
  have plain : (Asset.mk 7005 deipSymbol).Plain :=
    ⟨by decide, by decide, 3, ascii "DEIP", by decide, ⟨by decide, by decide, by decide +kernel, by decide,
      by decide⟩, by decide⟩
  exact ⟨fromString_toString.1 _ plain, fromString_toString.2.2 ⟨1250, 2⟩ ⟨by decide, by decide, by decide⟩⟩

/-! ## Which texts are read for what they say -/

/-- The text has the form `[-]digits[.digits] blank symbol`, and the amount is the number in
    front of the blank times ten for each digit behind the point. -/
def Denotes (source : Text) (amount : Int) : Prop :=
  ∃ (number : Number) (symbol : Text), number.Standard ∧ symbol ≠ [] ∧
    (∀ byte ∈ symbol, isSpace byte = false) ∧ source = number.text ++ blank :: symbol ∧
    amount = number.units

namespace Spelling

/-- No white space but the one blank, no plus sign, digits behind the point if there is one, no
    fraction but zero behind a minus sign, and a number in the range of the amount. -/
structure Plain (spelling : Spelling) : Prop where
  lead : spelling.lead = []
  trail : spelling.trail = []
  symbol : ∀ byte ∈ spelling.symbol, isSpace byte = false
  standard : spelling.number.Standard
  negative : spelling.number.sign = .negative → spelling.number.fractional = 0
  units : InInt64 spelling.number.units

/-- An accepted text is read for what it says exactly if it is spelled plainly. -/
theorem denotes_iff (spelling : Spelling) :
    Denotes spelling.text spelling.number.amount ↔ spelling.Plain := by
  constructor
  · rintro ⟨number, symbol, standard, some_symbol, solid, written, exact_units⟩
    have last : ∀ byte ∈ symbol.getLast?, isSpace byte = false :=
      fun byte ends => solid byte (List.mem_of_getLast? ends)
    have whole : spelling.core = spelling.text := by
      rw [← spelling.trim_text, written]
      simpa using @trim_padded [] _ [] rfl (number.trimmed_text some_symbol last) rfl
    have none : spelling.lead.length = 0 ∧ spelling.trail.length = 0 := by
      have lengths := congrArg List.length whole
      rw [text, List.length_append, List.length_append] at lengths
      omega
    rw [← whole] at written
    obtain ⟨same, rfl⟩ := append_cons_inj spelling.number.blank_notMem_text
      number.blank_notMem_text written
    have equal := Number.text_injective same
    subst equal
    obtain ⟨negative, fits⟩ := (spelling.number.amount_eq_units_iff spelling.short).mp exact_units
    exact ⟨List.length_eq_zero_iff.mp none.1, List.length_eq_zero_iff.mp none.2, solid, standard,
      negative, fits⟩
  · intro plain
    refine ⟨spelling.number, spelling.symbol, plain.standard, spelling.some_symbol, plain.symbol, ?_, ?_⟩
    · rw [text, core, plain.lead, plain.trail, List.nil_append, List.append_nil]
    · exact (spelling.number.amount_eq_units_iff spelling.short).mpr ⟨plain.negative, plain.units⟩

end Spelling

/-- The two parsers read a text for what it says, or refuse it, exactly if each way to find a
    number and a symbol between white space in it is plain. -/
theorem fromString_denotes_iff (source : Text) :
    ((∀ asset, Asset.fromString source = .ok asset → Denotes source asset.amount) ↔
      ∀ spelling : Spelling, spelling.text = source → spelling.symbol.length ≤ 6 →
        spelling.Plain) ∧
    ((∀ percent, Percent.fromString source = .ok percent → Denotes source percent.amount) ↔
      ∀ spelling : Spelling, spelling.text = source → spelling.symbol = [percentSign] →
        spelling.Plain) := by
  simp only [Asset.fromString_ok_iff, Percent.fromString_ok_iff]
  constructor
  · constructor
    · rintro reads spelling rfl short
      exact spelling.denotes_iff.mp (reads _ ⟨spelling, rfl, short, rfl⟩)
    · rintro plain _ ⟨spelling, rfl, short, rfl⟩
      exact spelling.denotes_iff.mpr (plain spelling rfl short)
  · constructor
    · rintro reads spelling rfl symbol
      exact spelling.denotes_iff.mp (reads _ ⟨spelling, rfl, symbol, rfl⟩)
    · rintro plain _ ⟨spelling, rfl, symbol, rfl⟩
      exact spelling.denotes_iff.mpr (plain spelling rfl symbol)

/-- `-1.5` is read as minus one half, so that the amount in tenths is minus five. -/
theorem Sample.fraction_added :
    ¬ ∀ source,
      (∀ asset, Asset.fromString source = .ok asset → Denotes source asset.amount) ∧
      ∀ percent, Percent.fromString source = .ok percent → Denotes source percent.amount := by
  intro exact_reads
  have spelled : ∃ spelling : Spelling, spelling.text = ascii "-1.5 %" ∧
      spelling.symbol = [percentSign] ∧ ¬ spelling.Plain := by
    refine ⟨⟨[], ⟨.negative, ascii "1", some (ascii "5"), by decide, by decide, by decide⟩,
      [percentSign], [], rfl, rfl, by decide, by decide +kernel, by decide, by decide, by decide⟩,
      by decide, rfl, ?_⟩
    intro plain
    exact absurd (plain.negative rfl) (by decide)
  obtain ⟨spelling, written, symbol, odd⟩ := spelled
  have accepted := Percent.fromString_ok_iff.mpr ⟨spelling, written, symbol, rfl⟩
  exact odd (spelling.denotes_iff.mp (written ▸ (exact_reads _).2 _ accepted))

end DeipChain.Ledger
