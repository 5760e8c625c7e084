import TypedTable.Csv.Field
import TypedTable.Proofs.Numeral.Grammar

/-!
# Fields as integers

A field is an integer just if it is written as one and its number is in the range of the type. Any
other field is refused for the first thing that is wrong with it: a minus sign where there are no
negative numbers, no digits, a number out of range, or something behind the number.
-/

set_option autoImplicit false

namespace TypedTable.Csv

open Numeral Text

inductive IntegerType where
  | int64
  | int32
  | word64
deriving DecidableEq, Repr

namespace IntegerType

@[reducible] def field : IntegerType → FieldType
  | .int64 => .scalar .int
  | .int32 => .int32
  | .word64 => .word64

def toInt : (type : IntegerType) → type.field.Carrier → Int
  | .int64, value => Int64.toInt value
  | .int32, value => Int32.toInt value
  | .word64, value => UInt64.toNat value

def ofInt : (type : IntegerType) → Int → type.field.Carrier
  | .int64, number => Int64.ofInt number
  | .int32, number => Int32.ofInt number
  | .word64, number => UInt64.ofNat number.toNat

def least (d : Dialect) : IntegerType → Int
  | .int64 => d.intMin.toInt
  | .int32 => max d.intMin.toInt Int32.minValue.toInt
  | .word64 => 0

def greatest (d : Dialect) : IntegerType → Int
  | .int64 => d.intMax.toInt
  | .int32 => min d.intMax.toInt Int32.maxValue.toInt
  | .word64 => d.uintMax.toNat

def Fits (d : Dialect) (type : IntegerType) (number : Int) : Prop :=
  type.least d ≤ number ∧ number ≤ type.greatest d

/-- The 64-bit word that numbers of the type are accumulated in holds the number. -/
def InWord : IntegerType → Int → Prop
  | .word64, number => 0 ≤ number ∧ number < UInt64.size
  | _, number => Int64.minValue.toInt ≤ number ∧ number ≤ Int64.maxValue.toInt

variable {d : Dialect} {type : IntegerType} {number : Int}

theorem ofInt_toInt (type : IntegerType) (value : type.field.Carrier) :
    type.ofInt (type.toInt value) = value := by
  cases type with
  | int64 => exact Int64.ofInt_toInt value
  | int32 => exact Int32.ofInt_toInt value
  | word64 => exact UInt64.ofNat_toNat

theorem Fits.inWord (h : type.Fits d number) : type.InWord number := by
  obtain ⟨hleast, hgreatest⟩ := h
  cases type with
  | int64 =>
    exact ⟨Int.le_trans d.intMin.minValue_le_toInt hleast, Int.le_trans hgreatest d.intMax.toInt_le⟩
  | int32 =>
    have hlow := Int.le_trans (Int.le_max_left _ _) hleast
    have hhigh := Int.le_trans hgreatest (Int.min_le_left _ _)
    exact ⟨Int.le_trans d.intMin.minValue_le_toInt hlow, Int.le_trans hhigh d.intMax.toInt_le⟩
  | word64 =>
    exact ⟨hleast, Int.lt_of_le_of_lt hgreatest (Int.ofNat_lt.2 d.uintMax.toNat_lt)⟩

theorem Fits.toInt_ofInt (h : type.Fits d number) : type.toInt (type.ofInt number) = number := by
  have hword := h.inWord
  cases type with
  | int64 =>
    obtain ⟨hlow, hhigh⟩ := hword
    rw [Int64.toInt_minValue] at hlow
    rw [Int64.toInt_maxValue] at hhigh
    exact Int64.toInt_ofInt_of_le hlow (Int.lt_of_le_sub_one hhigh)
  | int32 =>
    have hlow : Int32.minValue.toInt ≤ number := Int.le_trans (Int.le_max_right _ _) h.1
    have hhigh : number ≤ Int32.maxValue.toInt := Int.le_trans h.2 (Int.min_le_right _ _)
    rw [Int32.toInt_minValue] at hlow
    rw [Int32.toInt_maxValue] at hhigh
    exact Int32.toInt_ofInt_of_le hlow (Int.lt_of_le_sub_one hhigh)
  | word64 =>
    obtain ⟨size, rfl⟩ := Int.eq_ofNat_of_zero_le hword.1
    exact congrArg Nat.cast (UInt64.toNat_ofNat_of_lt' (Int.ofNat_lt.1 hword.2))

theorem least_nonpos (hmin : d.intMin.toInt ≤ 0) : type.least d ≤ 0 := by
  cases type with
  | int64 => exact hmin
  | int32 => exact Int.max_le.2 ⟨hmin, by decide⟩
  | word64 => exact Int.le_refl 0

theorem greatest_nonneg (hmax : 0 ≤ d.intMax.toInt) : 0 ≤ type.greatest d := by
  cases type with
  | int64 => exact hmax
  | int32 => exact Int.le_min.2 ⟨hmax, by decide⟩
  | word64 => exact Int.natCast_nonneg _

end IntegerType

namespace Field

/-- There are no negative words, and none is looked for behind a minus sign. -/
def Negated (type : IntegerType) (field : List UInt8) : Prop :=
  type = .word64 ∧ BeginsWithMinus field

/-- What becomes of a field that an integer is asked of. -/
inductive Conversion (d : Dialect) (type : IntegerType) (field : List UInt8) :
    Except FieldFault (Converted type.field.Carrier) → Prop
  | value {negative : Bool} {digits : List Nat} {value : type.field.Carrier}
    (hw : Written d.thousands field negative digits) (hs : type = .word64 → negative = false)
    (hv : type.toInt value = signed negative (ofDigits digits))
    (hf : type.Fits d (type.toInt value)) : Conversion d type field (.ok ⟨value, true⟩)
  | minusSign (hn : Negated type field) : Conversion d type field (.error .minusSign)
  | noDigits (hn : ¬ Negated type field) (hu : Unnumbered field) :
    Conversion d type field (.error .noDigits)
  | outOfRange {negative : Bool} {digits : List Nat} {rest : List UInt8}
    (hn : ¬ Negated type field) (hl : Leads d.thousands field negative digits rest)
    (hf : ¬ type.Fits d (signed negative (ofDigits digits))) :
    Conversion d type field (.error (.outOfRange type.field.name))
  | trailing {negative : Bool} {digits : List Nat} {rest : List UInt8}
    (hn : ¬ Negated type field) (hl : Leads d.thousands field negative digits rest)
    (hf : type.Fits d (signed negative (ofDigits digits)))
    (hr : ¬ ∀ byte ∈ rest, isBlank byte = true) : Conversion d type field (.error .trailing)

variable {d : Dialect} {type : IntegerType} {field rest : List UInt8} {negative : Bool}
  {digits : List Nat}

theorem convert_of_negated (h : Negated type field) :
    convert d type.field field = .error .minusSign := by
  obtain ⟨rfl, hminus⟩ := h
  rw [convert, parseUnsigned_eq 0, if_pos (takeSign_minus_iff.2 hminus)]
  rfl

theorem convert_of_not_negated (h : ¬ Negated type field) :
    convert d type.field field =
      (toInteger d type.field (type.least d) (type.greatest d) field >>= fun number =>
        .ok ⟨type.ofInt number, true⟩) := by
  cases type with
  | int64 | int32 => rfl
  | word64 =>
    have hplus : ¬ (takeSign (skipBlanks field)).1 = true :=
      fun hminus => h ⟨rfl, takeSign_minus_iff.1 hminus⟩
    rw [convert, parseUnsigned_eq 0, if_neg hplus]
    rfl

theorem convert_of_unnumbered (h : ¬ Negated type field) (hu : Unnumbered field) :
    convert d type.field field = .error .noDigits := by
  rw [convert_of_not_negated h, toInteger, parseSigned_of_unnumbered hu]
  rfl

/-- An integer is read from its decimal form, wherever separators stand in it. -/
theorem conversion_of_decimalText {value : type.field.Carrier} {text : List UInt8}
    (hf : type.Fits d (type.toInt value))
    (h : DecimalText d.thousands (type.toInt value) text) :
    Conversion d type text (.ok ⟨value, true⟩) := by
  obtain ⟨digits, hw, hv⟩ := h.written
  refine .value hw (fun hword => ?_) hv.symm hf
  subst hword
  exact decide_eq_false (Int.not_lt.2 hf.1)

section Bounds

variable (hmin : d.intMin.toInt ≤ 0) (hmax : 0 ≤ d.intMax.toInt)
  (ht : ∀ mark, d.thousands = some mark → isDigit mark = false)
include hmin hmax ht

theorem parseSigned_of_leads_within (hl : Leads d.thousands field negative digits rest)
    (hf : type.Fits d (signed negative (ofDigits digits))) :
    parseSigned d.thousands (type.least d) (type.greatest d) field =
      if rest.all isBlank then .ok (signed negative (ofDigits digits)) else .error .trailing := by
  rw [parseSigned_of_leads ht (IntegerType.least_nonpos hmin) (IntegerType.greatest_nonneg hmax) hl,
    if_pos ⟨hf.1, hf.2⟩]

theorem convert_of_within (h : ¬ Negated type field)
    (hl : Leads d.thousands field negative digits rest)
    (hf : type.Fits d (signed negative (ofDigits digits)))
    (hr : ∀ byte ∈ rest, isBlank byte = true) :
    convert d type.field field = .ok ⟨type.ofInt (signed negative (ofDigits digits)), true⟩ := by
  rw [convert_of_not_negated h, toInteger, parseSigned_of_leads_within hmin hmax ht hl hf,
    if_pos (List.all_eq_true.2 hr)]
  rfl

theorem convert_of_trailing (h : ¬ Negated type field)
    (hl : Leads d.thousands field negative digits rest)
    (hf : type.Fits d (signed negative (ofDigits digits)))
    (hr : ¬ ∀ byte ∈ rest, isBlank byte = true) :
    convert d type.field field = .error .trailing := by
  rw [convert_of_not_negated h, toInteger, parseSigned_of_leads_within hmin hmax ht hl hf,
    if_neg (mt List.all_eq_true.1 hr)]
  rfl

theorem convert_of_outside (h : ¬ Negated type field)
    (hl : Leads d.thousands field negative digits rest)
    (hf : ¬ type.Fits d (signed negative (ofDigits digits))) :
    convert d type.field field = .error (.outOfRange type.field.name) := by
  rw [IntegerType.Fits] at hf
  rw [convert_of_not_negated h, toInteger, parseSigned_of_leads ht
    (IntegerType.least_nonpos hmin) (IntegerType.greatest_nonneg hmax) hl, if_neg hf]
  rfl

theorem Conversion.convert_eq {result : Except FieldFault (Converted type.field.Carrier)}
    (h : Conversion d type field result) : convert d type.field field = result := by
  cases h with
  | minusSign hn => exact convert_of_negated hn
  | noDigits hn hu => exact convert_of_unnumbered hn hu
  | outOfRange hn hl hf => exact convert_of_outside hmin hmax ht hn hl hf
  | trailing hn hl hf hr => exact convert_of_trailing hmin hmax ht hn hl hf hr
  | @value negative digits value hw hs hv hf =>
    obtain ⟨rest, hl, hr⟩ := written_iff.1 hw
    have hn : ¬ Negated type field := fun hn => by
      have hminus := hl.beginsWithMinus_iff.1 hn.2
      rw [hs hn.1] at hminus
      cases hminus
    rw [convert_of_within hmin hmax ht hn hl (hv ▸ hf) hr, ← hv, IntegerType.ofInt_toInt]

theorem conversion_convert (type : IntegerType) (field : List UInt8) :
    Conversion d type field (convert d type.field field) := by
  by_cases hn : Negated type field
  · rw [convert_of_negated hn]
    exact .minusSign hn
  rcases unnumbered_or_leads d.thousands field with hu | ⟨negative, digits, rest, hl⟩
  · rw [convert_of_unnumbered hn hu]
    exact .noDigits hn hu
  by_cases hf : type.Fits d (signed negative (ofDigits digits))
  · by_cases hr : ∀ byte ∈ rest, isBlank byte = true
    · rw [convert_of_within hmin hmax ht hn hl hf hr]
      have hv := hf.toInt_ofInt
      refine .value (written_iff.2 ⟨rest, hl, hr⟩) (fun hword => ?_) hv (hv.symm ▸ hf)
      exact Bool.eq_false_iff.2 fun hminus => hn ⟨hword, hl.beginsWithMinus_iff.2 hminus⟩
    · rw [convert_of_trailing hmin hmax ht hn hl hf hr]
      exact .trailing hn hl hf hr
  · rw [convert_of_outside hmin hmax ht hn hl hf]
    exact .outOfRange hn hl hf

end Bounds

/-- Exactly what is written as an integer in range becomes one, on the way to it no number leaves the
range, and the decimal form of an integer is one. -/
theorem integers_converted_exactly (d : Dialect) (hmin : d.intMin.toInt ≤ 0)
    (hmax : 0 ≤ d.intMax.toInt) (ht : ∀ mark, d.thousands = some mark → isDigit mark = false)
    (type : IntegerType) :
    (∀ field result, convert d type.field field = result ↔ Conversion d type field result) ∧
    (∀ field count number,
      accumulated d.thousands (type.least d) (type.greatest d) field count = some number →
      type.Fits d number ∧ type.InWord number ∧
      ∀ next, count < (fieldDigits d.thousands field).length →
        accumulated d.thousands (type.least d) (type.greatest d) field (count + 1) = some next →
        type.InWord (number * 10)) ∧
    ∀ value text, type.Fits d (type.toInt value) →
      DecimalText d.thousands (type.toInt value) text →
      convert d type.field text = .ok ⟨value, true⟩ := by
  have hleast : type.least d ≤ 0 := IntegerType.least_nonpos hmin
  have hgreatest : 0 ≤ type.greatest d := IntegerType.greatest_nonneg hmax
  refine ⟨fun field result => ⟨?_, ?_⟩, fun field count number h => ?_, fun value text hf h => ?_⟩
  · rintro rfl
    exact conversion_convert hmin hmax ht type field
  · exact Conversion.convert_eq hmin hmax ht
  · have hfits : type.Fits d number := ((accumulated_eq_some_iff hleast hgreatest).1 h).1
    refine ⟨hfits, hfits.inWord, fun next hcount hnext => ?_⟩
    have htenfold : type.Fits d (number * 10) := tenfold_fits hleast hgreatest hcount h hnext
    exact htenfold.inWord
  · exact (conversion_of_decimalText hf h).convert_eq hmin hmax ht

/-- Bounds that are no multiples of ten, and a separator. -/
theorem integers_converted_exactly_byte :
    let d : Dialect := { intMin := -128, intMax := 127, thousands := some 95 }
    convert d .int32 [32, 45, 49, 95, 50, 56] = .ok ⟨-128, true⟩ ∧
    convert d .int32 [45, 49, 50, 57] = .error (.outOfRange "i32") ∧
    convert d .word64 [45, 48] = .error .minusSign ∧
    convert d (.scalar .int) [43, 95, 49] = .error .noDigits ∧
    convert d (.scalar .int) [49, 95] = .error .trailing ∧
    ∀ text, DecimalText (some 95) 127 text → convert d (.scalar .int) text = .ok ⟨127, true⟩ := by
  intro d
  have hmin : d.intMin.toInt ≤ 0 := by decide
  have hmax : 0 ≤ d.intMax.toInt := by decide
  have ht : ∀ mark, d.thousands = some mark → isDigit mark = false := by
    intro mark hmark
    obtain rfl := Option.some.inj hmark
    decide
  have hword := integers_converted_exactly d hmin hmax ht .word64
  have hlong := integers_converted_exactly d hmin hmax ht .int64
  have hint := integers_converted_exactly d hmin hmax ht .int32
  have hrun : DigitRun d.thousands [49, 95, 50, 56] [1, 2, 8] :=
    .separated (by decide) rfl (.digit (by decide) (.last (by decide)))
  have hover : DigitRun d.thousands [49, 50, 57] [1, 2, 9] :=
    .digit (by decide) (.digit (by decide) (.last (by decide)))
  have hwritten : Written d.thousands ([32] ++ ([45] ++ ([49, 95, 50, 56] ++ []))) true [1, 2, 8] :=
    .intro (by simp [isBlank]) .minus hrun (by simp)
  have hleads : Leads d.thousands ([] ++ ([45] ++ ([49, 50, 57] ++ []))) true [1, 2, 9] [] :=
    .intro (by simp) .minus hover (.of_blanks (by simp))
  have hends : Ends d.thousands [95] := by
    refine ⟨by decide, ?_⟩
    intro mark later hsplit _
    rw [← (List.cons.inj hsplit).2]
    rfl
  have hshort : Leads d.thousands ([] ++ ([] ++ ([49] ++ [95]))) false [1] [95] :=
    .intro (by simp) .none (.last (by decide)) hends
  refine ⟨(hint.1 _ _).2 ?_, (hint.1 _ _).2 ?_, (hword.1 _ _).2 ?_, (hlong.1 _ _).2 ?_,
    (hlong.1 _ _).2 ?_, fun text h => ?_⟩
  · exact .value hwritten (fun h => absurd h (by decide)) (by decide) ⟨by decide, by decide⟩
  · exact .outOfRange (fun h => absurd h.1 (by decide)) hleads fun hfits => absurd hfits.1 (by decide)
  · exact .minusSign ⟨rfl, [], [48], by simp, rfl⟩
  · exact .noDigits (fun h => absurd h.1 (by decide)) (unnumbered_iff.2 (by decide))
  · exact .trailing (fun h => absurd h.1 (by decide)) hshort ⟨by decide, by decide⟩
      (by simp [isBlank])
  · exact hlong.2.2 127 text ⟨by decide, by decide⟩ h

end Field

end TypedTable.Csv
