import DeipChain.Ledger.Assets
import DeipChain.Ledger.AssetText

/-!
# The symbols of new assets

A new asset gets its symbol from a text: the evaluator prints a power of ten for the decimals,
appends the name that was asked for and hands both to the parser of amounts. The power is held in
an `int`, which ends at nine decimals. The parser trims the name at its end, a zero byte cuts it
off where it is read back, and a point in the name of an asset without decimals is taken for the
point of the amount.

The validator lets all of these through.
-/
namespace DeipChain.Ledger

open DeipChain.Result DeipChain.Decimals

/-- The conversion of a number to `int`, which is open where the number is out of range. -/
structure IntConversion where
  convert : Nat → Int
  faithful : ∀ number, number < 2 ^ 31 → convert number = number
  inRange : ∀ number, -2 ^ 31 ≤ convert number ∧ convert number < 2 ^ 31

/-- `fc::is_utf8`. -/
def isUtf8 (text : Text) : Bool :=
  (ByteArray.mk text.toArray).validateUTF8

namespace Wire

/-- `create_asset_operation` as it is sent, with the name and the precision of the asset. -/
structure CreateAssetOperation where
  issuer : Name
  symbol : Text
  precision : Nat
  maxSupply : Int
  description : Text
  traits : List AssetTrait
deriving DecidableEq

namespace CreateAssetOperation

def validate (op : CreateAssetOperation) : Except String Unit := do
  validateAccountName op.issuer
  require (0 < op.symbol.length ∧ op.symbol.length < 7) "Asset symbol must be specified"
  require (isUtf8 op.symbol = true) "Asset symbol is not valid UTF8 string"
  require (op.precision < 15) "Precision must be less than 15."
  require (op.maxSupply ≤ maxShareSupply) "Max supply is too large"
  require (0 < op.description.length → isUtf8 op.description = true)
    "Description is not valid UTF8 string"
  op.traits.forM validateTrait

/-- The text that the evaluator hands to the parser. -/
def stringAsset (conversion : IntConversion) (op : CreateAssetOperation) : Text :=
  let p := conversion.convert (10 ^ op.precision)
  ascii "0." ++ (int64Text p).drop 1 ++ blank :: op.symbol

/-- The asset that the evaluator starts from. -/
def newAsset (conversion : IntConversion) (op : CreateAssetOperation) : Except String Asset :=
  Asset.fromString (op.stringAsset conversion)

/-- The operation that the ledger applies for the asset. -/
def onLedger (op : CreateAssetOperation) (asset : Asset) : Ledger.CreateAssetOperation where
  issuer := op.issuer
  symbol := asset.symbol
  stringSymbol := (String.fromUTF8? ⟨op.symbol.toArray⟩).getD ""
  maxSupply := op.maxSupply
  traits := op.traits

/-- `create_asset_evaluator`. -/
def evaluate (conversion : IntConversion) (state : State) (op : CreateAssetOperation) :
    Except String State := do
  let asset ← op.newAsset conversion
  (op.onLedger asset).apply state

/-! ## What the symbol has to be -/

/-- The asset has the name and the precision of the operation, and whatever amount of it is
    printed is read back. -/
structure Represents (op : CreateAssetOperation) (asset : Asset) : Prop where
  name : symbolName asset.symbol = .ok op.symbol
  decimals : decimalsOf asset.symbol = .ok op.precision
  reads : ∀ amount : Int, 0 ≤ amount → amount < 2 ^ 63 →
    ∃ text, (Asset.mk amount asset.symbol).toString = .ok text ∧
      Asset.fromString text = .ok ⟨amount, asset.symbol⟩

/-- The precision is at most nine, or ten where the conversion leaves ten digits and a sign. -/
def PrecisionFits (conversion : IntConversion) (op : CreateAssetOperation) : Prop :=
  op.precision ≤ 9 ∨ op.precision = 10 ∧ conversion.convert (10 ^ 10) ≤ -10 ^ 9

/-- The name does not end in white space, has no zero byte, and has no point if the asset has no
    decimals. -/
structure NameFits (op : CreateAssetOperation) : Prop where
  solid : ∀ last ∈ op.symbol.getLast?, isSpace last = false
  nonzero : (0 : UInt8) ∉ op.symbol
  pointless : op.precision = 0 → dot ∉ op.symbol

/-! ## The digits of the power -/

variable {conversion : IntConversion} {op : CreateAssetOperation}

/-- What is printed for the power without its first character. -/
def places (conversion : IntConversion) (op : CreateAssetOperation) : Text :=
  (int64Text (conversion.convert (10 ^ op.precision))).drop 1

theorem places_digits (conversion : IntConversion) (op : CreateAssetOperation) :
    (op.places conversion).all isDigit = true := by
  have drop : ∀ text : Text, text.all isDigit = true → (text.drop 1).all isDigit = true := by
    intro text all
    rw [List.all_eq_true] at all ⊢
    exact fun byte member => all byte (List.mem_of_mem_drop member)
  unfold places int64Text
  split
  · exact decimal_digits _
  · exact drop _ (decimal_digits _)

/-- At most ten characters follow the first one of an `int`, and ten only behind a sign. -/
theorem length_drop_int64Text {number : Int} (low : -2 ^ 31 ≤ number) (high : number < 2 ^ 31) :
    ((int64Text number).drop 1).length ≤ 10 ∧
      (((int64Text number).drop 1).length = 10 ↔ number ≤ -10 ^ 9) := by
  have ten := @length_decimal_le_iff number.natAbs 10 (by decide)
  have nine := @length_decimal_le_iff number.natAbs 9 (by decide)
  unfold int64Text
  split
  · rw [List.drop_one, List.tail_cons]
    omega
  · rw [List.length_drop]
    omega

theorem length_places_iff (small : op.precision < 15) :
    (op.places conversion).length = op.precision ↔ op.PrecisionFits conversion := by
  unfold PrecisionFits
  by_cases few : op.precision ≤ 9
  · have power : 10 ^ op.precision ≤ 10 ^ 9 := Nat.pow_le_pow_right (by decide) few
    have printed := conversion.faithful (10 ^ op.precision) (by omega)
    obtain ⟨digits, shown, count, _, _⟩ :=
      @decimal_padded op.precision 0 (Nat.pow_pos (by decide))
    have whole : op.places conversion = digits := by
      rw [places, printed, int64Text_natCast, ← Nat.add_zero (10 ^ op.precision), shown,
        List.drop_one, List.tail_cons]
    rw [whole]
    exact ⟨fun _ => .inl few, fun _ => count⟩
  · obtain ⟨low, high⟩ := conversion.inRange (10 ^ op.precision)
    obtain ⟨bound, sharp⟩ := length_drop_int64Text low high
    change (op.places conversion).length ≤ 10 at bound
    change (op.places conversion).length = 10 ↔ _ at sharp
    constructor
    · intro same
      have ten : op.precision = 10 := by omega
      refine .inr ⟨ten, ?_⟩
      rw [ten] at same sharp
      exact sharp.mp same
    · rintro (less | ⟨ten, far⟩)
      · exact absurd less few
      · rw [ten] at sharp
        rw [ten]
        exact sharp.mpr far

/-! ## What the parser makes of it -/

/-- The name without white space at its end. -/
def kept (op : CreateAssetOperation) : Text :=
  op.symbol.rdropWhile isSpace

/-- The number in front of the name. -/
def number (conversion : IntConversion) (op : CreateAssetOperation) : Number where
  sign := .unsigned
  whole := ascii "0"
  fraction := some (op.places conversion)
  some_digits := by decide
  whole_digits := by decide
  fraction_digits := by
    rintro _ ⟨⟩
    exact op.places_digits conversion

/-- The text is the number, a blank and the name, with white space behind it. -/
theorem stringAsset_eq (conversion : IntConversion) (op : CreateAssetOperation) :
    op.stringAsset conversion = [] ++ ((op.number conversion).text ++ blank :: op.kept) ++
      op.symbol.rtakeWhile isSpace := by
  have parts : op.symbol = op.kept ++ op.symbol.rtakeWhile isSpace :=
    List.rdropWhile_append_rtakeWhile.symm
  have written : (op.number conversion).text = ascii "0." ++ op.places conversion := rfl
  rw [written, List.nil_append, List.append_assoc, List.cons_append, ← parts]
  rfl

theorem behind_space (op : CreateAssetOperation) :
    (op.symbol.rtakeWhile isSpace).all isSpace = true := by
  rw [List.all_eq_true]
  intro byte member
  exact List.mem_rtakeWhile_imp member

/-- The new asset has the name up to its last white space and as many decimals as there are
    digits. A name of white space alone is refused. -/
theorem newAsset_symbol {asset : Asset} (created : op.newAsset conversion = .ok asset) :
    op.kept ≠ [] ∧ asset.symbol = symbolOf (op.places conversion).length op.kept := by
  obtain ⟨spelling, written, short, rfl⟩ := Asset.fromString_ok_iff.mp created
  rw [stringAsset_eq] at written
  have trimmed := spelling.trim_text
  rw [written] at trimmed
  have some_bytes : op.kept ≠ [] := by
    intro none
    have rest : trim (op.stringAsset conversion) = (op.number conversion).text := by
      rw [stringAsset_eq, none, List.append_assoc [], List.append_assoc (op.number conversion).text,
        ← List.append_assoc []]
      apply trim_padded rfl
      · exact trimmed_of_solid fun byte member => (op.number conversion).not_isSpace member
      · rw [List.singleton_append, List.all_cons, op.behind_space]
        rfl
    rw [← stringAsset_eq, rest] at trimmed
    apply (op.number conversion).blank_notMem_text
    rw [trimmed, Spelling.core]
    exact List.mem_append_right _ List.mem_cons_self
  rw [trim_padded rfl ((op.number conversion).trimmed_text some_bytes (solid_rdropWhile _))
    op.behind_space] at trimmed
  obtain ⟨same, name⟩ := append_cons_inj (op.number conversion).blank_notMem_text
    spelling.number.blank_notMem_text trimmed
  refine ⟨some_bytes, ?_⟩
  rw [← Number.text_injective same, ← name]
  rfl

theorem newAsset_runs (conversion : IntConversion) (some_bytes : op.kept ≠ [])
    (short : op.symbol.length ≤ 6) : ∃ asset, op.newAsset conversion = .ok asset := by
  have few : (op.number conversion).places < 15 := by
    obtain ⟨low, high⟩ := conversion.inRange (10 ^ op.precision)
    exact Nat.lt_of_le_of_lt (length_drop_int64Text low high).1 (by decide)
  have zero : InInt64 (op.number conversion).integral := by
    show InInt64 0
    decide
  have written : ∃ spelling : Spelling, spelling.text = op.stringAsset conversion ∧
      spelling.symbol = op.kept :=
    ⟨⟨[], op.number conversion, op.kept, op.symbol.rtakeWhile isSpace, rfl, op.behind_space,
      some_bytes, solid_rdropWhile _, nofun, few, zero⟩, (op.stringAsset_eq conversion).symm, rfl⟩
  obtain ⟨spelling, same, name⟩ := written
  refine ⟨_, Asset.fromString_ok_iff.mpr ⟨spelling, same, ?_, rfl⟩⟩
  rw [name]
  exact (List.rdropWhile_prefix isSpace op.symbol).length_le.trans short

/-! ## When the asset is the one that was asked for -/

theorem validate_bounds (accepted : op.validate = .ok ()) :
    0 < op.symbol.length ∧ op.symbol.length ≤ 6 ∧ op.precision < 15 := by
  simp only [validate, bind_ok_iff, require_ok_iff] at accepted
  obtain ⟨_, _, _, ⟨some_bytes, short⟩, _, _, _, few, _⟩ := accepted
  exact ⟨some_bytes, by omega, few⟩

/-- An asset without decimals whose name has a point is not read back. -/
theorem pointless_of_reads {name : Text} (some_bytes : name ≠ []) (short : name.length ≤ 6)
    (nonzero : name.takeWhile (· ≠ 0) = name) (solid : ∀ last ∈ name.getLast?, isSpace last = false)
    {text : Text} (printed : (Asset.mk 0 (symbolOf 0 name)).toString = .ok text) {asset : Asset}
    (read : Asset.fromString text = .ok asset) : dot ∉ name := by
  rw [Asset.toString, decimalsOf_symbolOf (by decide), symbolName_symbolOf _ short, nonzero] at printed
  obtain ⟨spelling, written, _, _⟩ := Asset.fromString_ok_iff.mp read
  let zero : Number :=
    ⟨.unsigned, ascii "0", none, by decide, by decide, by simp⟩
  have same : text = zero.text ++ blank :: name := (Except.ok.inj printed).symm
  have trimmed := spelling.trim_text
  rw [written, same] at trimmed
  have alone := @trim_padded [] _ [] rfl (zero.trimmed_text some_bytes solid) rfl
  rw [List.nil_append, List.append_nil, trimmed] at alone
  obtain ⟨number, equal⟩ :=
    append_cons_inj spelling.number.blank_notMem_text zero.blank_notMem_text alone
  rw [← equal]
  apply spelling.pointless
  rw [Number.text_injective number]

/-- What the asset represents is what was asked for exactly if the precision and the name fit. -/
theorem represents_iff (accepted : op.validate = .ok ()) {asset : Asset}
    (created : op.newAsset conversion = .ok asset) :
    op.Represents asset ↔ op.PrecisionFits conversion ∧ op.NameFits := by
  obtain ⟨_, short, few⟩ := validate_bounds accepted
  obtain ⟨some_bytes, symbol⟩ := newAsset_symbol created
  have shorter : op.kept.length ≤ op.symbol.length :=
    (List.rdropWhile_prefix isSpace op.symbol).length_le
  have room : (op.places conversion).length < 15 := by
    obtain ⟨low, high⟩ := conversion.inRange (10 ^ op.precision)
    exact Nat.lt_of_le_of_lt (length_drop_int64Text low high).1 (by decide)
  constructor
  · rintro ⟨name, decimals, reads⟩
    rw [symbol, symbolName_symbolOf _ (shorter.trans short), Except.ok.injEq] at name
    rw [symbol, decimalsOf_symbolOf room, Except.ok.injEq] at decimals
    have front : (op.kept.takeWhile (· ≠ 0)).length ≤ op.kept.length :=
      (List.takeWhile_prefix _).length_le
    rw [name] at front
    have whole : op.kept = op.symbol :=
      (List.rdropWhile_prefix isSpace op.symbol).eq_of_length (Nat.le_antisymm shorter front)
    rw [whole] at name some_bytes symbol
    have solid := solid_rdropWhile op.symbol
    change ∀ last ∈ op.kept.getLast?, _ at solid
    rw [whole] at solid
    refine ⟨(length_places_iff few).mp decimals, solid, ?_, ?_⟩
    · intro member
      rw [← name] at member
      simpa using List.mem_takeWhile_imp member
    · intro none
      obtain ⟨text, printed, read⟩ := reads 0 (by decide) (by decide)
      rw [symbol, decimals, none] at printed
      exact pointless_of_reads some_bytes short name solid printed read
  · rintro ⟨precision, solid, nonzero, pointless⟩
    have whole : op.kept = op.symbol := by
      rw [kept, List.rdropWhile_eq_self_iff]
      intro some_symbol
      rw [solid _ (List.getLast?_eq_getLast_of_ne_nil some_symbol)]
      exact Bool.false_ne_true
    have count := (length_places_iff few).mpr precision
    rw [whole, count] at symbol
    rw [whole] at some_bytes
    refine ⟨?_, ?_, ?_⟩
    · rw [symbol, symbolName_symbolOf _ short, Except.ok.injEq, List.takeWhile_eq_self_iff]
      intro byte member
      exact decide_eq_true fun zero => nonzero (zero ▸ member)
    · rw [symbol, decimalsOf_symbolOf few]
    · intro amount nonneg fits
      rw [symbol]
      exact reads_back nonneg fits few some_bytes short nonzero solid pointless

/-- The name is white space alone, or it and the precision fit. -/
def Fits (conversion : IntConversion) (op : CreateAssetOperation) : Prop :=
  op.symbol.all isSpace = true ∨ op.PrecisionFits conversion ∧ op.NameFits

theorem kept_eq_nil_iff (op : CreateAssetOperation) : op.kept = [] ↔ op.symbol.all isSpace = true := by
  rw [kept, List.rdropWhile_eq_nil_iff, List.all_eq_true]

/-- An accepted operation creates the asset that it asks for, or none, exactly if its name and its
    precision fit. Assets of such operations have the same symbol only if the operations have the
    same name and precision. -/
theorem newAsset_represents_iff (conversion : IntConversion) :
    (∀ op : CreateAssetOperation, op.validate = .ok () →
      ((∀ asset, op.newAsset conversion = .ok asset → op.Represents asset) ↔ op.Fits conversion)) ∧
    ∀ first second : CreateAssetOperation, first.validate = .ok () → second.validate = .ok () →
      first.Fits conversion → second.Fits conversion →
      ∀ asset other, first.newAsset conversion = .ok asset → second.newAsset conversion = .ok other →
        asset.symbol = other.symbol →
        first.symbol = second.symbol ∧ first.precision = second.precision := by
  have each : ∀ op : CreateAssetOperation, op.validate = .ok () →
      ((∀ asset, op.newAsset conversion = .ok asset → op.Represents asset) ↔ op.Fits conversion) := by
    intro op accepted
    obtain ⟨_, short, _⟩ := validate_bounds accepted
    constructor
    · intro represents
      by_cases none : op.kept = []
      · exact .inl (op.kept_eq_nil_iff.mp none)
      · obtain ⟨asset, created⟩ := newAsset_runs conversion none short
        exact .inr ((represents_iff accepted created).mp (represents asset created))
    · rintro (space | fits) asset created
      · exact absurd (op.kept_eq_nil_iff.mpr space) (newAsset_symbol created).1
      · exact (represents_iff accepted created).mpr fits
  refine ⟨each, ?_⟩
  intro first second accepted admitted fits suits asset other created made same
  have front := (each first accepted).mpr fits asset created
  have back := (each second admitted).mpr suits other made
  have name := front.name
  have decimals := front.decimals
  rw [same, back.name, Except.ok.injEq] at name
  rw [same, back.decimals, Except.ok.injEq] at decimals
  exact ⟨name.symm, decimals.symm⟩

end CreateAssetOperation

end Wire

/-! ## Twelve decimals -/

/-- The conversion of a processor that marks what is out of range by the lowest `int`. -/
def Sample.conversion : IntConversion where
  convert number := if number < 2 ^ 31 then number else -2 ^ 31
  faithful number small := if_pos small
  inRange number := by
    split
    · omega
    · omega

def Sample.gold (precision : Nat) : Wire.CreateAssetOperation where
  issuer := "alice"
  symbol := ascii "GOLD"
  precision
  maxSupply := 1000
  description := []
  traits := []

theorem Sample.gold_represented :
    ∀ asset, (gold 3).newAsset conversion = .ok asset → (gold 3).Represents asset :=
  ((Wire.CreateAssetOperation.newAsset_represents_iff conversion).1 (gold 3) (by decide +kernel)).mpr
    (.inr ⟨.inl (by decide), by decide +kernel, by decide, by decide⟩)

/-- Assets of eleven and of twelve decimals both get ten, and the same symbol. -/
theorem Sample.ten_decimals :
    ¬ ((∀ op : Wire.CreateAssetOperation, op.validate = .ok () →
        ∀ asset, op.newAsset conversion = .ok asset → op.Represents asset) ∧
      ∀ first second : Wire.CreateAssetOperation, first.validate = .ok () →
        second.validate = .ok () → ∀ asset other, first.newAsset conversion = .ok asset →
        second.newAsset conversion = .ok other → asset.symbol = other.symbol →
        first.symbol = second.symbol ∧ first.precision = second.precision) := by
  rintro ⟨_, distinct⟩
  have eleven : (gold 11).newAsset conversion = .ok ⟨2147483648, symbolOf 10 (ascii "GOLD")⟩ := by
    decide +kernel
  have twelve : (gold 12).newAsset conversion = .ok ⟨2147483648, symbolOf 10 (ascii "GOLD")⟩ := by
    decide +kernel
  have same := (distinct (gold 11) (gold 12) (by decide +kernel) (by decide +kernel) _ _ eleven twelve rfl).2
  exact absurd same (by decide)

end DeipChain.Ledger
