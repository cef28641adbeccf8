import DeipChain.Lib.Decimals

/-!
# Formatted input from a text

The extraction of numbers and characters from a stream of bytes. An extraction from a stream in
good state passes over white space. One that finds nothing left sets the end of file and fails,
and leaves its variable alone. A number is a sign or none and digits; it sets the end of file if
the text ends with it, and it fails if there are no digits, for which it stores zero, or if it is
too large, for which it stores the maximum.

What a minus sign in front of an unsigned number means is up to the implementation: the number
wraps around, or it is out of range.
-/
namespace DeipChain.Decimals

structure Stream where
  rest : Text
  eof : Bool
  fail : Bool
deriving DecidableEq, Repr

/-- A number as it stands in the text, behind white space. -/
structure Field where
  blanks : Text
  sign : Sign
  digits : Text
  blanks_space : blanks.all isSpace = true
  digits_all : digits.all isDigit = true

def Field.text (field : Field) : Text :=
  field.blanks ++ (field.sign.text ++ field.digits)

/-- The value that is stored for a sign and digits, and whether the extraction fails. -/
def convert (wraps : Bool) (sign : Sign) (digits : Text) : Nat × Bool :=
  if digits = [] then (0, true)
  else if 2 ^ 32 ≤ value digits then (2 ^ 32 - 1, true)
  else if sign = .negative ∧ value digits ≠ 0 then
    if wraps then (2 ^ 32 - value digits, false) else (2 ^ 32 - 1, true)
  else (value digits, false)

def signOf (text : Text) : Sign :=
  if text.head? = some minus then .negative
  else if text.head? = some plus then .positive
  else .unsigned

/-- What follows the sign of a text. -/
def behindSign (text : Text) : Text :=
  text.drop (signOf text).text.length

namespace Stream

def ofText (text : Text) : Stream :=
  ⟨text, false, false⟩

/-- What an extraction begins with: it passes over white space, and goes on if the stream is in
    good state and something is left. -/
def sentry (stream : Stream) : Stream × Bool :=
  if stream.eof || stream.fail then ({ stream with fail := true }, false)
  else
    match stream.rest.dropWhile isSpace with
    | [] => (⟨[], true, true⟩, false)
    | first :: rest => ({ stream with rest := first :: rest }, true)

/-- `operator>>` for `uint32_t`, into a variable with a current value. -/
def readUInt32 (wraps : Bool) (stream : Stream) (current : Nat) : Stream × Nat :=
  match stream.sentry with
  | (failed, false) => (failed, current)
  | (ready, true) =>
    let digits := (behindSign ready.rest).takeWhile isDigit
    let rest := (behindSign ready.rest).dropWhile isDigit
    let (stored, fails) := convert wraps (signOf ready.rest) digits
    (⟨rest, rest.isEmpty, fails⟩, stored)

/-- `operator>>` for `char`. -/
def readChar (stream : Stream) (current : UInt8) : Stream × UInt8 :=
  match stream.sentry with
  | (failed, false) => (failed, current)
  | (ready, true) =>
    match ready.rest with
    | [] => (⟨[], true, true⟩, current)
    | byte :: rest => ({ ready with rest }, byte)

end Stream

/-! ## What the extractions do to a text -/

theorem space_or_solid (text : Text) :
    text.all isSpace = true ∨ ∃ blanks first rest, text = blanks ++ first :: rest ∧
      blanks.all isSpace = true ∧ isSpace first = false := by
  induction text with
  | nil => exact .inl rfl
  | cons byte text hypothesis =>
    cases space : isSpace byte with
    | false => exact .inr ⟨[], byte, text, rfl, rfl, space⟩
    | true =>
      rcases hypothesis with all | ⟨blanks, first, rest, rfl, all, solid⟩
      · exact .inl (by rw [List.all_cons, space, all]; rfl)
      · exact .inr ⟨byte :: blanks, first, rest, rfl, by rw [List.all_cons, space, all]; rfl, solid⟩

/-- The sign of a text is what it begins with. -/
theorem signOf_append_behindSign (text : Text) : (signOf text).text ++ behindSign text = text := by
  cases text with
  | nil => rfl
  | cons first rest =>
    unfold behindSign signOf
    split
    · rename_i negative
      rw [Option.some_inj.mp negative]
      rfl
    · split
      · rename_i positive
        rw [Option.some_inj.mp positive]
        rfl
      · rfl

theorem signOf_text {sign : Sign} {digits rest : Text}
    (counted : sign = .unsigned → digits ≠ []) (all : digits.all isDigit = true) :
    signOf (sign.text ++ (digits ++ rest)) = sign := by
  cases sign with
  | positive => rfl
  | negative => rfl
  | unsigned =>
    cases digits with
    | nil => exact absurd rfl (counted rfl)
    | cons first others =>
      have unsigned : some first ≠ some minus := fun same =>
        head_ne_of_digits all (show isDigit minus = false from rfl) (Option.some_inj.mp same)
      have plain : some first ≠ some plus := fun same =>
        head_ne_of_digits all (show isDigit plus = false from rfl) (Option.some_inj.mp same)
      rw [signOf]
      exact (if_neg unsigned).trans (if_neg plain)

theorem takeWhile_digits {digits rest : Text} (all : digits.all isDigit = true)
    (stops : ∀ byte ∈ rest.head?, isDigit byte = false) :
    (digits ++ rest).takeWhile isDigit = digits ∧ (digits ++ rest).dropWhile isDigit = rest := by
  rw [List.all_eq_true] at all
  rw [List.takeWhile_append_of_pos all, List.dropWhile_append_of_pos all]
  cases rest with
  | nil => exact ⟨List.append_nil _, rfl⟩
  | cons first others =>
    have other : ¬ isDigit first = true := by simp [stops first rfl]
    rw [List.takeWhile_cons_of_neg other, List.dropWhile_cons_of_neg other, List.append_nil]
    exact ⟨rfl, rfl⟩

namespace Stream

theorem sentry_ended {blanks : Text} (all : blanks.all isSpace = true) :
    (ofText blanks).sentry = (⟨[], true, true⟩, false) := by
  rw [List.all_eq_true] at all
  simp only [sentry, ofText, Bool.or_self, Bool.false_eq_true, if_false,
    List.dropWhile_eq_nil_iff.mpr all]

theorem sentry_ready {blanks rest : Text} {first : UInt8} (all : blanks.all isSpace = true)
    (solid : isSpace first = false) :
    (ofText (blanks ++ first :: rest)).sentry = (ofText (first :: rest), true) := by
  rw [List.all_eq_true] at all
  have stop : ¬ isSpace first = true := by simp [solid]
  simp only [sentry, ofText, Bool.or_self, Bool.false_eq_true, if_false,
    List.dropWhile_append_of_pos all, List.dropWhile_cons_of_neg stop]

theorem sentry_bad {stream : Stream} (bad : (stream.eof || stream.fail) = true) :
    stream.sentry = ({ stream with fail := true }, false) := by
  rw [sentry, if_pos bad]

theorem readChar_bad {stream : Stream} (bad : (stream.eof || stream.fail) = true) (current : UInt8) :
    stream.readChar current = ({ stream with fail := true }, current) := by
  rw [readChar, sentry_bad bad]

theorem readUInt32_bad {stream : Stream} (bad : (stream.eof || stream.fail) = true) (wraps : Bool)
    (current : Nat) : stream.readUInt32 wraps current = ({ stream with fail := true }, current) := by
  rw [readUInt32, sentry_bad bad]

theorem readChar_ended {blanks : Text} (all : blanks.all isSpace = true) (current : UInt8) :
    (ofText blanks).readChar current = (⟨[], true, true⟩, current) := by
  rw [readChar, sentry_ended all]

theorem readChar_ready {blanks rest : Text} {first : UInt8} (all : blanks.all isSpace = true)
    (solid : isSpace first = false) (current : UInt8) :
    (ofText (blanks ++ first :: rest)).readChar current = (ofText rest, first) := by
  rw [readChar, sentry_ready all solid]
  rfl

/-- A number at the begin of a text, with what is left behind it. A number without digits is
    found only at the end. -/
theorem readUInt32_field (wraps : Bool) (field : Field) {rest : Text}
    (stops : ∀ byte ∈ rest.head?, isDigit byte = false) (counted : field.digits ≠ [] ∨ rest = []) :
    (ofText (field.text ++ rest)).readUInt32 wraps 0 =
      (⟨rest, rest.isEmpty, (convert wraps field.sign field.digits).2⟩,
        (convert wraps field.sign field.digits).1) := by
  obtain ⟨blanks, sign, digits, space, all⟩ := field
  show (ofText (blanks ++ (sign.text ++ digits) ++ rest)).readUInt32 wraps 0 = _
  rw [List.append_assoc blanks]
  by_cases nothing : sign = .unsigned ∧ digits = []
  · obtain ⟨rfl, rfl⟩ := nothing
    have ended : rest = [] := counted.resolve_left (fun some_digits => some_digits rfl)
    subst ended
    rw [readUInt32]
    simp only [Sign.text, List.append_nil, sentry_ended space]
    rfl
  · have some_digits : sign = .unsigned → digits ≠ [] := fun same none => nothing ⟨same, none⟩
    obtain ⟨first, others, shape, solid⟩ : ∃ first others,
        sign.text ++ digits ++ rest = first :: others ∧ isSpace first = false := by
      cases sign with
      | positive => exact ⟨plus, digits ++ rest, rfl, rfl⟩
      | negative => exact ⟨minus, digits ++ rest, rfl, rfl⟩
      | unsigned =>
        cases digits with
        | nil => exact absurd rfl (some_digits rfl)
        | cons first others =>
          rw [List.all_cons, Bool.and_eq_true] at all
          exact ⟨first, others ++ rest, rfl, not_isSpace_of_isDigit all.1⟩
    obtain ⟨taken, dropped⟩ := takeWhile_digits all stops
    have signs := @signOf_text sign digits rest some_digits all
    rw [← List.append_assoc, shape] at signs
    have behind : behindSign (first :: others) = digits ++ rest := by
      rw [behindSign, signs, ← shape, List.append_assoc, List.drop_left]
    rw [shape, readUInt32, sentry_ready space solid]
    simp only [ofText, signs, behind, taken, dropped]

/-- Whatever the text, a number or the place of one is found at its begin. -/
theorem exists_field (wraps : Bool) (text : Text) :
    ∃ (field : Field) (rest : Text), text = field.text ++ rest ∧
      (ofText text).readUInt32 wraps 0 =
        (⟨rest, rest.isEmpty, (convert wraps field.sign field.digits).2⟩,
          (convert wraps field.sign field.digits).1) := by
  rcases space_or_solid text with all | ⟨blanks, first, others, rfl, all, solid⟩
  · refine ⟨⟨text, .unsigned, [], all, rfl⟩, [], by simp [Field.text, Sign.text], ?_⟩
    rw [readUInt32, sentry_ended all]
    rfl
  · refine ⟨⟨blanks, signOf (first :: others), (behindSign (first :: others)).takeWhile isDigit, all,
      List.all_takeWhile⟩, (behindSign (first :: others)).dropWhile isDigit, ?_, ?_⟩
    · rw [Field.text, List.append_assoc, List.append_assoc, List.takeWhile_append_dropWhile,
        signOf_append_behindSign]
    · rw [readUInt32, sentry_ready all solid]
      rfl

end Stream

end DeipChain.Decimals
