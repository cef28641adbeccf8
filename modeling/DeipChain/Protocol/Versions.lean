import DeipChain.Lib.Result
import DeipChain.Lib.TextStream

/-!
# Version numbers

A version is printed as three numbers with points between them. It is read by three extractions
of numbers and two of characters from a stream, of which only the separators, the ranges and the
end of the text are checked, not whether they failed.

So the last number may be missing, in which case it is zero. White space in front of a number or
a separator and signs in front of numbers are passed over.
-/
namespace DeipChain.Versions

open DeipChain.Result DeipChain.Decimals

/-- `version`: the revision in the low half, the hardfork and the major version above it. -/
structure Version where
  vNum : UInt32
deriving DecidableEq, Repr

/-- `hardfork_version`, which every constructor and assignment masks. -/
structure HardforkVersion where
  version : Version
  masked : version.vNum &&& 0xffff0000 = version.vNum

def Version.masked (version : Version) : Version :=
  ⟨version.vNum &&& 0xffff0000⟩

def Version.major (version : Version) : Nat :=
  ((version.vNum >>> 24) &&& 0x000000FF).toNat

def Version.hardfork (version : Version) : Nat :=
  ((version.vNum >>> 16) &&& 0x000000FF).toNat

def Version.revision (version : Version) : Nat :=
  (version.vNum &&& 0x0000FFFF).toNat

/-- `operator fc::string`. -/
def Version.toString (version : Version) : Text :=
  decimal version.major ++ dot :: (decimal version.hardfork ++ dot :: decimal version.revision)

/-- `0 | (major << 24) | (hardfork << 16) | revision`. -/
def pack (major hardfork revision : Nat) : Version :=
  ⟨(0 : UInt32) ||| (UInt32.ofNat major <<< 24) ||| (UInt32.ofNat hardfork <<< 16) ||| UInt32.ofNat revision⟩

def underscore : UInt8 := 95

/-- `from_variant`. The variables start as zeros; each extraction leaves a stream and a value. -/
def fromVariant (wraps : Bool) (text : Text) : Except String Version := do
  let major := (Stream.ofText text).readUInt32 wraps 0
  let dotA := major.1.readChar 0
  let hardfork := dotA.1.readUInt32 wraps 0
  let dotB := hardfork.1.readChar 0
  let revision := dotB.1.readUInt32 wraps 0
  require ((dotA.2 = dot ∨ dotA.2 = underscore) ∧ dotA.2 = dotB.2)
    "Variant does not contain proper dotted decimal format"
  require (major.2 ≤ 0xFF) "Major version is out of range"
  require (hardfork.2 ≤ 0xFF) "Hardfork version is out of range"
  require (revision.2 ≤ 0xFFFF) "Revision version is out of range"
  require (revision.1.eof = true) "Extra information at end of version string"
  return pack major.2 hardfork.2 revision.2

/-- `from_variant` for a hardfork version. -/
def hardforkFromVariant (wraps : Bool) (text : Text) : Except String Version := do
  let version ← fromVariant wraps text
  return version.masked

/-! ## Packed numbers -/

theorem major_eq (version : Version) : version.major = version.vNum.toNat / 2 ^ 24 % 2 ^ 8 := by
  rw [Version.major, UInt32.toNat_and, UInt32.toNat_shiftRight, Nat.shiftRight_eq_div_pow]
  exact Nat.and_two_pow_sub_one_eq_mod _ 8

theorem hardfork_eq (version : Version) :
    version.hardfork = version.vNum.toNat / 2 ^ 16 % 2 ^ 8 := by
  rw [Version.hardfork, UInt32.toNat_and, UInt32.toNat_shiftRight, Nat.shiftRight_eq_div_pow]
  exact Nat.and_two_pow_sub_one_eq_mod _ 8

theorem revision_eq (version : Version) : version.revision = version.vNum.toNat % 2 ^ 16 := by
  rw [Version.revision, UInt32.toNat_and]
  exact Nat.and_two_pow_sub_one_eq_mod _ 16

theorem parts_le (version : Version) :
    version.major ≤ 0xFF ∧ version.hardfork ≤ 0xFF ∧ version.revision ≤ 0xFFFF := by
  rw [major_eq, hardfork_eq, revision_eq]
  omega

theorem toNat_pack {major hardfork revision : Nat} (first : major ≤ 0xFF) (second : hardfork ≤ 0xFF)
    (third : revision ≤ 0xFFFF) :
    (pack major hardfork revision).vNum.toNat = major * 2 ^ 24 + hardfork * 2 ^ 16 + revision := by
  have upper : major <<< 24 ||| hardfork <<< 16 = (major * 2 ^ 8 + hardfork) <<< 16 := by
    have low : hardfork <<< 16 < 2 ^ 24 := by
      rw [Nat.shiftLeft_eq]
      omega
    rw [← Nat.shiftLeft_add_eq_or_of_lt low, Nat.shiftLeft_eq, Nat.shiftLeft_eq, Nat.shiftLeft_eq]
    ring
  have small : ∀ number : Nat, number < 2 ^ 32 → (UInt32.ofNat number).toNat = number := by
    intro number fits
    rw [UInt32.toNat_ofNat']
    exact Nat.mod_eq_of_lt fits
  have high : (UInt32.ofNat major <<< 24).toNat = major <<< 24 := by
    rw [UInt32.toNat_shiftLeft, small major (by omega)]
    have fits : major <<< 24 < 2 ^ 32 := by
      rw [Nat.shiftLeft_eq]
      omega
    exact Nat.mod_eq_of_lt fits
  have middle : (UInt32.ofNat hardfork <<< 16).toNat = hardfork <<< 16 := by
    rw [UInt32.toNat_shiftLeft, small hardfork (by omega)]
    have fits : hardfork <<< 16 < 2 ^ 32 := by
      rw [Nat.shiftLeft_eq]
      omega
    exact Nat.mod_eq_of_lt fits
  have low : (UInt32.ofNat revision).toNat = revision := small revision (by omega)
  have short : revision < 2 ^ 16 := by omega
  rw [pack, UInt32.toNat_or, UInt32.toNat_or, UInt32.toNat_or, high, middle, low]
  show 0 ||| major <<< 24 ||| hardfork <<< 16 ||| revision = _
  rw [Nat.zero_or, upper, ← Nat.shiftLeft_add_eq_or_of_lt short, Nat.shiftLeft_eq]
  omega

theorem pack_parts (version : Version) :
    pack version.major version.hardfork version.revision = version := by
  obtain ⟨first, second, third⟩ := parts_le version
  have same : (pack version.major version.hardfork version.revision).vNum = version.vNum := by
    apply UInt32.toNat_inj.mp
    have bound := version.vNum.toNat_lt
    rw [toNat_pack first second third, major_eq, hardfork_eq, revision_eq]
    omega
  rw [← show (⟨(pack version.major version.hardfork version.revision).vNum⟩ : Version) =
    pack version.major version.hardfork version.revision from rfl, same]

/-! ## Texts that are read -/

/-- Three numbers with two separators of one kind. White space may stand before a number and before
    a separator. -/
structure Spelling where
  major : Field
  before : Text
  separator : UInt8
  hardfork : Field
  between : Text
  revision : Field
  before_space : before.all isSpace = true
  between_space : between.all isSpace = true
  separates : separator = dot ∨ separator = underscore

/-- What a number comes to, and whether reading it fails. -/
def number (wraps : Bool) (field : Field) : Nat × Bool :=
  convert wraps field.sign field.digits

namespace Spelling

def text (spelling : Spelling) : Text :=
  spelling.major.text ++ (spelling.before ++ spelling.separator ::
    (spelling.hardfork.text ++ (spelling.between ++ spelling.separator :: spelling.revision.text)))

/-- The first two numbers are read and all are in range. -/
structure InRange (wraps : Bool) (spelling : Spelling) : Prop where
  major_reads : (number wraps spelling.major).2 = false
  hardfork_reads : (number wraps spelling.hardfork).2 = false
  major : (number wraps spelling.major).1 ≤ 0xFF
  hardfork : (number wraps spelling.hardfork).1 ≤ 0xFF
  revision : (number wraps spelling.revision).1 ≤ 0xFFFF

def version (wraps : Bool) (spelling : Spelling) : Version :=
  pack (number wraps spelling.major).1 (number wraps spelling.hardfork).1
    (number wraps spelling.revision).1

theorem separator_solid (spelling : Spelling) :
    isSpace spelling.separator = false ∧ isDigit spelling.separator = false := by
  rcases spelling.separates with point | line
  · rw [point]
    decide
  · rw [line]
    decide

end Spelling

theorem digits_of_reads {wraps : Bool} {field : Field} (reads : (number wraps field).2 = false) :
    field.digits ≠ [] := by
  intro none
  rw [number, convert, if_pos none] at reads
  cases reads

/-- A separator behind white space ends a number. -/
theorem stops_before {blanks rest : Text} {separator : UInt8} (space : blanks.all isSpace = true)
    (other : isDigit separator = false) :
    ∀ byte ∈ (blanks ++ separator :: rest).head?, isDigit byte = false := by
  cases blanks with
  | nil =>
    rintro _ ⟨⟩
    exact other
  | cons first others =>
    rintro _ ⟨⟩
    rw [List.all_cons, Bool.and_eq_true] at space
    cases digit : isDigit first with
    | false => rfl
    | true => exact absurd space.1 (by rw [not_isSpace_of_isDigit digit]; exact Bool.false_ne_true)

/-- A number that is read before a separator leaves the stream in good state. -/
theorem readUInt32_reads {wraps : Bool} {field : Field} (reads : (number wraps field).2 = false)
    {blanks rest : Text} {separator : UInt8} (space : blanks.all isSpace = true)
    (other : isDigit separator = false) :
    (Stream.ofText (field.text ++ (blanks ++ separator :: rest))).readUInt32 wraps 0 =
      (Stream.ofText (blanks ++ separator :: rest), (number wraps field).1) := by
  rw [Stream.readUInt32_field wraps field (stops_before space other) (.inl (digits_of_reads reads))]
  have more : (blanks ++ separator :: rest).isEmpty = false := by simp
  change (convert wraps field.sign field.digits).2 = false at reads
  rw [more, reads]
  rfl

/-- Before a separator that is found, a number was read, and white space may follow it. -/
theorem read_before {wraps : Bool} {text : Text} {separator : UInt8} (found : separator ≠ 0)
    (read : (((Stream.ofText text).readUInt32 wraps 0).1.readChar 0).2 = separator) :
    ∃ (field : Field) (blanks rest : Text), text = field.text ++ (blanks ++ separator :: rest) ∧
      blanks.all isSpace = true ∧ (number wraps field).2 = false ∧
      ((Stream.ofText text).readUInt32 wraps 0).2 = (number wraps field).1 ∧
      (((Stream.ofText text).readUInt32 wraps 0).1.readChar 0).1 = Stream.ofText rest := by
  obtain ⟨field, behind, rfl, result⟩ := Stream.exists_field wraps text
  rw [result] at read ⊢
  cases bad : behind.isEmpty || (convert wraps field.sign field.digits).2 with
  | true =>
    rw [Stream.readChar_bad bad] at read
    exact absurd read.symm found
  | false =>
    obtain ⟨more, reads⟩ := Bool.or_eq_false_iff.mp bad
    rw [more, reads] at read ⊢
    change ((Stream.ofText behind).readChar 0).2 = separator at read
    rcases space_or_solid behind with all | ⟨blanks, first, rest, rfl, all, solid⟩
    · rw [Stream.readChar_ended all] at read
      exact absurd read.symm found
    · have next := @Stream.readChar_ready blanks rest first all solid 0
      rw [next] at read
      change first = separator at read
      subst read
      exact ⟨field, blanks, rest, rfl, all, reads, rfl, congrArg Prod.fst next⟩

/-- The parser accepts a text exactly if it is spelled so. -/
theorem fromVariant_ok_iff {wraps : Bool} {text : Text} {version : Version} :
    fromVariant wraps text = .ok version ↔ ∃ spelling : Spelling, spelling.text = text ∧
      spelling.InRange wraps ∧ spelling.version wraps = version := by
  simp only [fromVariant, bind_ok_iff, require_ok_iff, pure_ok_iff]
  constructor
  · rintro ⟨_, ⟨separates, alike⟩, _, low, _, middle, _, high, _, ended, rfl⟩
    obtain ⟨separator, shown⟩ :
        ∃ separator, (((Stream.ofText text).readUInt32 wraps 0).1.readChar 0).2 = separator := ⟨_, rfl⟩
    rw [shown] at separates alike
    have found : separator ≠ 0 := by
      rcases separates with rfl | rfl
      · decide
      · decide
    obtain ⟨major, before, rest, rfl, before_space, major_reads, first, next⟩ :=
      read_before found shown
    rw [next] at alike middle high ended ⊢
    obtain ⟨hardfork, between, behind, rfl, between_space, hardfork_reads, second, last⟩ :=
      read_before found alike.symm
    rw [last] at high ended ⊢
    obtain ⟨revision, left, rfl, third⟩ := Stream.exists_field wraps behind
    rw [third] at high ended ⊢
    rw [first] at low ⊢
    rw [second] at middle ⊢
    have nothing : left = [] := List.isEmpty_iff.mp ended
    subst nothing
    refine ⟨⟨major, before, separator, hardfork, between, revision, before_space, between_space,
      separates⟩, ?_, ⟨major_reads, hardfork_reads, low, middle, high⟩, rfl⟩
    rw [List.append_nil]
    rfl
  · rintro ⟨spelling, rfl, ranged, rfl⟩
    obtain ⟨solid, other⟩ := spelling.separator_solid
    have first := @readUInt32_reads wraps spelling.major ranged.major_reads spelling.before
      (spelling.hardfork.text ++ (spelling.between ++ spelling.separator :: spelling.revision.text))
      spelling.separator spelling.before_space other
    have second := @readUInt32_reads wraps spelling.hardfork ranged.hardfork_reads spelling.between
      spelling.revision.text spelling.separator spelling.between_space other
    have third := @Stream.readUInt32_field wraps spelling.revision [] (by simp) (.inr rfl)
    rw [List.append_nil] at third
    rw [Spelling.text, first]
    simp only [Stream.readChar_ready spelling.before_space solid, second,
      Stream.readChar_ready spelling.between_space solid, third]
    exact ⟨⟨⟩, ⟨spelling.separates, trivial⟩, ⟨⟩, ranged.major, ⟨⟩, ranged.hardfork, ⟨⟩, ranged.revision,
      ⟨⟩, rfl, rfl⟩

/-! ## Texts that are read for what they say -/

/-- Three rows of digits in the ranges of a version, with two points or two underscores between
    them and nothing else. -/
structure Written (text : Text) (major hardfork revision : Text) : Prop where
  some_major : major ≠ []
  some_hardfork : hardfork ≠ []
  some_revision : revision ≠ []
  major_digits : major.all isDigit = true
  hardfork_digits : hardfork.all isDigit = true
  revision_digits : revision.all isDigit = true
  separated : ∃ separator, (separator = dot ∨ separator = underscore) ∧
    text = major ++ separator :: (hardfork ++ separator :: revision)
  major_range : value major ≤ 0xFF
  hardfork_range : value hardfork ≤ 0xFF
  revision_range : value revision ≤ 0xFFFF

def Denotes (text : Text) (version : Version) : Prop :=
  ∃ major hardfork revision, Written text major hardfork revision ∧
    version = pack (value major) (value hardfork) (value revision)

/-- A row of digits without white space and sign. -/
def plainField (digits : Text) (all : digits.all isDigit = true) : Field :=
  ⟨[], .unsigned, digits, rfl, all⟩

theorem number_plain {wraps : Bool} {digits : Text} {all : digits.all isDigit = true}
    (some_digits : digits ≠ []) (small : value digits < 2 ^ 32) :
    number wraps (plainField digits all) = (value digits, false) := by
  have fits : ¬ 2 ^ 32 ≤ value digits := by omega
  show convert wraps .unsigned digits = _
  rw [convert, if_neg some_digits, if_neg fits, if_neg]
  rintro ⟨negative, _⟩
  cases negative

/-- The parser reads what is written so. -/
theorem Denotes.reads {text : Text} {version : Version} (denotes : Denotes text version)
    (wraps : Bool) : fromVariant wraps text = .ok version := by
  obtain ⟨major, hardfork, revision, written, rfl⟩ := denotes
  obtain ⟨separator, separates, rfl⟩ := written.separated
  have low := written.major_range
  have middle := written.hardfork_range
  have high := written.revision_range
  have first := @number_plain wraps major written.major_digits written.some_major (by omega)
  have second := @number_plain wraps hardfork written.hardfork_digits written.some_hardfork (by omega)
  have third := @number_plain wraps revision written.revision_digits written.some_revision (by omega)
  rw [fromVariant_ok_iff]
  refine ⟨⟨plainField major written.major_digits, [], separator,
    plainField hardfork written.hardfork_digits, [], plainField revision written.revision_digits, rfl,
    rfl, separates⟩, rfl, ⟨?_, ?_, ?_, ?_, ?_⟩, ?_⟩
  · rw [first]
  · rw [second]
  · rwa [first]
  · rwa [second]
  · rwa [third]
  · rw [Spelling.version, first, second, third]

/-- No white space, no signs, and digits for the last number. -/
structure Spelling.Plain (spelling : Spelling) : Prop where
  major_blanks : spelling.major.blanks = []
  major_sign : spelling.major.sign = .unsigned
  before : spelling.before = []
  hardfork_blanks : spelling.hardfork.blanks = []
  hardfork_sign : spelling.hardfork.sign = .unsigned
  between : spelling.between = []
  revision_blanks : spelling.revision.blanks = []
  revision_sign : spelling.revision.sign = .unsigned
  some_revision : spelling.revision.digits ≠ []

/-- What is stored for a row of digits is its value, unless that is out of every range. -/
theorem number_unsigned {wraps : Bool} {field : Field} (sign : field.sign = .unsigned)
    (some_digits : field.digits ≠ []) (small : (number wraps field).1 ≤ 0xFFFF) :
    (number wraps field).1 = value field.digits := by
  rw [number, convert, if_neg some_digits] at small ⊢
  split
  · rename_i large
    rw [if_pos large] at small
    omega
  · rw [if_neg]
    rintro ⟨negative, _⟩
    rw [sign] at negative
    cases negative

/-- A plain spelling says what the parser makes of it. -/
theorem Spelling.Plain.denotes {wraps : Bool} {spelling : Spelling} (plain : spelling.Plain)
    (ranged : spelling.InRange wraps) : Denotes spelling.text (spelling.version wraps) := by
  have low := ranged.major
  have middle := ranged.hardfork
  have first := number_unsigned plain.major_sign (digits_of_reads ranged.major_reads)
    (low.trans (by decide))
  have second := number_unsigned plain.hardfork_sign (digits_of_reads ranged.hardfork_reads)
    (middle.trans (by decide))
  have third := number_unsigned plain.revision_sign plain.some_revision ranged.revision
  refine ⟨spelling.major.digits, spelling.hardfork.digits, spelling.revision.digits,
    ⟨digits_of_reads ranged.major_reads, digits_of_reads ranged.hardfork_reads, plain.some_revision,
      spelling.major.digits_all, spelling.hardfork.digits_all, spelling.revision.digits_all, ?_,
      first ▸ ranged.major, second ▸ ranged.hardfork, third ▸ ranged.revision⟩, ?_⟩
  · refine ⟨spelling.separator, spelling.separates, ?_⟩
    simp only [Spelling.text, Field.text, plain.major_blanks, plain.major_sign, plain.before,
      plain.hardfork_blanks, plain.hardfork_sign, plain.between, plain.revision_blanks,
      plain.revision_sign, Sign.text, List.nil_append]
  · rw [Spelling.version, first, second, third]

/-- What is written in digits and separators. -/
theorem Denotes.bytes {text : Text} {version : Version} (denotes : Denotes text version) :
    (∀ byte ∈ text, isDigit byte = true ∨ byte = dot ∨ byte = underscore) ∧
      ∀ last ∈ text.getLast?, isDigit last = true := by
  obtain ⟨major, hardfork, revision, written, rfl⟩ := denotes
  obtain ⟨separator, separates, rfl⟩ := written.separated
  have first := List.all_eq_true.mp written.major_digits
  have second := List.all_eq_true.mp written.hardfork_digits
  have third := List.all_eq_true.mp written.revision_digits
  constructor
  · intro byte member
    simp only [List.mem_append, List.mem_cons] at member
    rcases member with front | rfl | middle | rfl | back
    · exact .inl (first byte front)
    · exact .inr separates
    · exact .inl (second byte middle)
    · exact .inr separates
    · exact .inl (third byte back)
  · intro last ends
    rw [List.getLast?_append_of_ne_nil _ (List.cons_ne_nil _ _),
      List.getLast?_cons_of_ne_nil (List.append_ne_nil_of_left_ne_nil written.some_hardfork _),
      List.getLast?_append_of_ne_nil _ (List.cons_ne_nil _ _),
      List.getLast?_cons_of_ne_nil written.some_revision] at ends
    exact third last (List.mem_of_getLast? ends)

/-- A spelling of digits and separators alone is plain. -/
theorem Spelling.plain_of_denotes {spelling : Spelling} {version : Version}
    (denotes : Denotes spelling.text version) : spelling.Plain := by
  obtain ⟨bytes, ends⟩ := denotes.bytes
  have blankless : ∀ blanks : Text, blanks.all isSpace = true → (∀ byte ∈ blanks, byte ∈ spelling.text) →
      blanks = [] := by
    intro blanks space inside
    rw [List.eq_nil_iff_forall_not_mem]
    intro byte member
    have white := List.all_eq_true.mp space byte member
    rcases bytes byte (inside byte member) with digit | rfl | rfl
    · rw [not_isSpace_of_isDigit digit] at white
      cases white
    · exact absurd white (by decide)
    · exact absurd white (by decide)
  have signless : ∀ sign : Sign, (∀ byte ∈ sign.text, byte ∈ spelling.text) → sign = .unsigned := by
    intro sign inside
    cases sign with
    | unsigned => rfl
    | positive => exact absurd (bytes plus (inside plus List.mem_cons_self)) (by decide)
    | negative => exact absurd (bytes minus (inside minus List.mem_cons_self)) (by decide)
  have revision_blanks : spelling.revision.blanks = [] := by
    apply blankless _ spelling.revision.blanks_space
    intro byte member
    simp [Spelling.text, Field.text, member]
  have revision_sign : spelling.revision.sign = .unsigned := by
    apply signless
    intro byte member
    simp [Spelling.text, Field.text, member]
  have some_revision : spelling.revision.digits ≠ [] := by
    intro none
    have missing : spelling.revision.text = [] := by
      rw [Field.text, revision_blanks, revision_sign, none]
      rfl
    have last : spelling.text.getLast? = some spelling.separator := by
      rw [Spelling.text, missing, List.getLast?_append_of_ne_nil _ (by simp),
        List.getLast?_append_of_ne_nil _ (List.cons_ne_nil _ _),
        List.getLast?_cons_of_ne_nil (by simp), List.getLast?_append_of_ne_nil _ (by simp),
        List.getLast?_append_of_ne_nil _ (List.cons_ne_nil _ _)]
      rfl
    exact Bool.false_ne_true (spelling.separator_solid.2.symm.trans (ends _ last))
  refine ⟨blankless _ spelling.major.blanks_space ?_, signless _ ?_, blankless _ spelling.before_space ?_,
    blankless _ spelling.hardfork.blanks_space ?_, signless _ ?_,
    blankless _ spelling.between_space ?_, revision_blanks, revision_sign, some_revision⟩
  iterate 6
    · intro byte member
      simp [Spelling.text, Field.text, member]

/-! ## Versions and their texts -/

theorem written_toString (version : Version) :
    Written version.toString (decimal version.major) (decimal version.hardfork)
      (decimal version.revision) := by
  obtain ⟨first, second, third⟩ := parts_le version
  refine ⟨decimal_ne_nil _, decimal_ne_nil _, decimal_ne_nil _, decimal_digits _, decimal_digits _,
    decimal_digits _, ⟨dot, .inl rfl, rfl⟩, ?_, ?_, ?_⟩
  · rwa [value_decimal]
  · rwa [value_decimal]
  · rwa [value_decimal]

theorem fromVariant_toString (wraps : Bool) (version : Version) :
    fromVariant wraps version.toString = .ok version := by
  apply Denotes.reads
  refine ⟨_, _, _, written_toString version, ?_⟩
  rw [value_decimal, value_decimal, value_decimal, pack_parts]

theorem toString_injective : Function.Injective Version.toString := by
  intro first second same
  have read := fromVariant_toString true first
  rw [same, fromVariant_toString true second, Except.ok.injEq] at read
  exact read.symm

/-- Versions and hardfork versions are read back from their texts, which are different for
    different versions. A text is read exactly as it is written, if every way to spell three
    numbers in it that the parser takes is plain. -/
theorem fromVariant_denotes_iff (wraps : Bool) :
    (∀ version : Version, fromVariant wraps version.toString = .ok version) ∧
    (∀ hardfork : HardforkVersion,
      hardforkFromVariant wraps hardfork.version.toString = .ok hardfork.version) ∧
    Function.Injective Version.toString ∧
    ∀ text, (∀ version, fromVariant wraps text = .ok version ↔ Denotes text version) ↔
      ∀ spelling : Spelling, spelling.text = text → spelling.InRange wraps → spelling.Plain := by
  refine ⟨fromVariant_toString wraps, ?_, toString_injective, ?_⟩
  · intro hardfork
    rw [hardforkFromVariant, fromVariant_toString]
    show Except.ok hardfork.version.masked = .ok hardfork.version
    rw [Version.masked, hardfork.masked]
  · intro text
    constructor
    · rintro exact_reads spelling rfl ranged
      have accepted := fromVariant_ok_iff.mpr ⟨spelling, rfl, ranged, rfl⟩
      exact Spelling.plain_of_denotes ((exact_reads _).mp accepted)
    · intro plain version
      constructor
      · intro read
        obtain ⟨spelling, rfl, ranged, rfl⟩ := fromVariant_ok_iff.mp read
        exact (plain spelling rfl ranged).denotes ranged
      · exact fun denotes => denotes.reads wraps

/-- `1.2.` is read as the version `1.2.0`. -/
theorem Sample.revision_missing :
    ¬ ∃ wraps, ∀ text version, fromVariant wraps text = .ok version ↔ Denotes text version := by
  rintro ⟨wraps, exact_reads⟩
  have accepted : fromVariant wraps (ascii "1.2.") = .ok (pack 1 2 0) := by
    cases wraps with
    | false => decide +kernel
    | true => decide +kernel
  have last := ((exact_reads _ _).mp accepted).bytes.2 dot (by decide)
  exact absurd last (by decide)

end DeipChain.Versions
