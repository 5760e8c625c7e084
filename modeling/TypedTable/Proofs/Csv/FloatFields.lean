import TypedTable.Csv.Settings
import TypedTable.Proofs.Csv.IntegerFields
import TypedTable.Proofs.Numeral.Magnitudes

/-!
# Integers among floating point fields

A field that is read as a floating point number is marked if nothing but digits was read. Such a
field is an integer, in range or not, but for a separator before the first digit, which is passed
over like those between two digits and which no integer may have.
-/

set_option autoImplicit false

namespace TypedTable

namespace Numeral

open Text

variable {separator : Option UInt8} {field text rest : List UInt8} {digits : List Nat}
  {negative : Bool} {budget : Nat} {marks : DecimalMarks} {result : Scan}

/-- As `Written`, but with a separator before the first digit. -/
inductive Preceded (separator : Option UInt8) : List UInt8 → Bool → List Nat → Prop
  | intro {before sign run after : List UInt8} {mark : UInt8} {negative : Bool} {digits : List Nat}
    (hb : ∀ byte ∈ before, isBlank byte = true) (hs : Sign sign negative)
    (hm : separator = some mark) (hr : DigitRun separator run digits)
    (ha : ∀ byte ∈ after, isBlank byte = true) :
    Preceded separator (before ++ (sign ++ (mark :: (run ++ after)))) negative digits

theorem takeFraction_of_none {point : UInt8} (h : (takeFraction point text).1 = none) :
    takeFraction point text = (none, text) := by
  cases text with
  | nil => rfl
  | cons byte rest =>
    rw [takeFraction] at h ⊢
    split_ifs at h ⊢
    rfl

theorem skipBlanks_isEmpty_iff : (skipBlanks text).isEmpty = true ↔
    ∀ byte ∈ text, isBlank byte = true := by
  rw [List.isEmpty_iff, skipBlanks, List.dropWhile_eq_nil_iff]

theorem blanks_of_end {blanksMayFollow : Bool}
    (h : (if blanksMayFollow then skipBlanks text else text).isEmpty = true) :
    ∀ byte ∈ text, isBlank byte = true := by
  cases blanksMayFollow with
  | true => exact skipBlanks_isEmpty_iff.1 h
  | false =>
    rw [if_neg Bool.false_ne_true] at h
    simp [List.isEmpty_iff.1 h]

theorem digits_of_scan (h : scan budget marks text = .ok result) (hi : result.integral = true) :
    ∃ digits rest, groupedRun marks.separator (takeSign (skipBlanks text)).2 = (digits, rest) ∧
      digits ≠ [] ∧ ∀ byte ∈ rest, isBlank byte = true := by
  unfold scan at h
  dsimp only at h
  generalize groupedRun marks.separator (takeSign (skipBlanks text)).2 = run at h ⊢
  refine ⟨run.1, run.2, rfl, ?_⟩
  split at h
  next => cases h
  next hdigits =>
    cases hpower : takeExponent marks.exponent (takeFraction marks.point run.2).2 with
    | some power =>
      rw [hpower] at h
      dsimp only at h
      split_ifs at h
      all_goals
        obtain rfl := Except.ok.inj h
        simp at hi
    | none =>
      rw [hpower] at h
      dsimp only at h
      by_cases hend : (if marks.blanksMayFollow then
          skipBlanks (takeFraction marks.point run.2).2
        else (takeFraction marks.point run.2).2).isEmpty = true
      · rw [if_pos hend] at h
        obtain rfl := Except.ok.inj h
        have hfraction : (takeFraction marks.point run.2).1 = none := by simpa using hi
        rw [takeFraction_of_none hfraction] at hdigits hend
        exact ⟨fun hnil => hdigits (by simp [hnil]), blanks_of_end hend⟩
      · rw [if_neg hend] at h
        cases h

theorem takeFraction_of_blanks {point : UInt8} (hpoint : isBlank point = false)
    (hb : ∀ byte ∈ text, isBlank byte = true) : takeFraction point text = (none, text) := by
  cases text with
  | nil => rfl
  | cons byte rest =>
    rw [takeFraction, if_neg]
    rintro rfl
    rw [hb byte (by simp)] at hpoint
    cases hpoint

theorem takeExponent_of_blanks (marker : UInt8) (hb : ∀ byte ∈ text, isBlank byte = true) :
    takeExponent marker text = none := by
  cases text with
  | nil => rfl
  | cons byte rest =>
    have hrest : ∀ byte ∈ rest, isBlank byte = true := fun byte hm => hb byte (by simp [hm])
    have hsigned : startsWithDigit (takeSign rest).2 = false := by
      cases rest with
      | nil => rfl
      | cons next later =>
        have hnext := isBlank_iff.1 (hrest next (by simp))
        rw [takeSign_of_ne]
        · exact not_isDigit_of_isBlank (hrest next (by simp))
        · rintro rfl
          simp at hnext
        · rintro rfl
          simp at hnext
    simp [takeExponent, hsigned]

theorem scan_of_digits (budget : Nat)
    (hread : groupedRun marks.separator (takeSign (skipBlanks text)).2 = (digits, rest))
    (hd : digits ≠ []) (hb : ∀ byte ∈ rest, isBlank byte = true)
    (hafter : marks.blanksMayFollow = true) (hpoint : isBlank marks.point = false) :
    scan budget marks text =
      .ok ⟨(takeSign (skipBlanks text)).1, Mantissa.ofParts budget digits [], true⟩ := by
  unfold scan
  dsimp only
  rw [hread, takeFraction_of_blanks hpoint hb, takeExponent_of_blanks _ hb,
    if_neg (by simpa using hd)]
  dsimp only
  rw [if_pos]
  · rfl
  · rw [hafter, if_pos rfl]
    exact skipBlanks_isEmpty_iff.2 hb

theorem DigitRun.digits_ne_nil {run : List UInt8} (h : DigitRun separator run digits) :
    digits ≠ [] := by
  cases h <;> exact List.cons_ne_nil _ _

/-- What a run of digits is read from begins with a digit, or with a separator before one. -/
theorem head_of_groupedRun (h : (groupedRun separator text).1 ≠ []) :
    startsWithDigit text = true ∨ ∃ mark later, text = mark :: later ∧ separator = some mark ∧
      startsWithDigit later = true := by
  cases text with
  | nil => exact absurd rfl h
  | cons byte rest =>
    by_cases hdigit : isDigit byte = true
    · exact .inl hdigit
    · rw [groupedRun, if_neg hdigit] at h
      by_cases hmark : separator = some byte ∧ startsWithDigit rest = true
      · exact .inr ⟨byte, rest, rfl, hmark.1, hmark.2⟩
      · rw [if_neg hmark] at h
        exact absurd rfl h

/-- A separator stands where the first digit is looked for. -/
def LeadingSeparator (separator : Option UInt8) (field : List UInt8) : Prop :=
  ∃ mark rest, separator = some mark ∧ (takeSign (skipBlanks field)).2 = mark :: rest

theorem unnumbered_of_leadingSeparator (ht : ∀ mark, separator = some mark → isDigit mark = false)
    (hl : LeadingSeparator separator field) : Unnumbered field := by
  obtain ⟨mark, rest, hmark, hsplit⟩ := hl
  rw [unnumbered_iff, hsplit]
  exact ht mark hmark

section Marked

variable (ht : ∀ mark, separator = some mark → isDigit mark = false)
  (hread : groupedRun separator (takeSign (skipBlanks field)).2 = (digits, rest))
  (hd : digits ≠ []) (hb : ∀ byte ∈ rest, isBlank byte = true)
include ht hread hd hb

theorem written_of_groupedRun (hl : ¬ LeadingSeparator separator field) :
    ∃ negative, Written separator field negative digits := by
  obtain ⟨before, sign, hbefore, hsign, hfield⟩ := exists_head field
  generalize (takeSign (skipBlanks field)).1 = negative at hsign
  obtain hdigit | ⟨mark, later, hsplit, hmark, -⟩ := head_of_groupedRun (by rwa [hread])
  · obtain ⟨run, values, after, hsplit, hrun, hends⟩ := exists_run hdigit
    rw [hsplit, hrun.groupedRun ht hends] at hread
    obtain ⟨rfl, rfl⟩ := Prod.mk.inj hread
    rw [hfield, hsplit]
    exact ⟨negative, .intro hbefore hsign hrun hb⟩
  · exact absurd ⟨mark, later, hmark, hsplit⟩ hl

theorem preceded_of_groupedRun (hl : LeadingSeparator separator field) :
    ∃ negative, Preceded separator field negative digits := by
  obtain ⟨before, sign, hbefore, hsign, hfield⟩ := exists_head field
  generalize (takeSign (skipBlanks field)).1 = negative at hsign
  obtain hdigit | ⟨mark, later, hsplit, hmark, hlater⟩ := head_of_groupedRun (by rwa [hread])
  · have hnone := unnumbered_iff.1 (unnumbered_of_leadingSeparator ht hl)
    rw [hdigit] at hnone
    cases hnone
  · obtain ⟨run, values, after, hrest, hrun, hends⟩ := exists_run hlater
    have hdigit : ¬ isDigit mark = true := by simp [ht mark hmark]
    rw [hsplit, groupedRun, if_neg hdigit, if_pos ⟨hmark, hlater⟩, hrest,
      hrun.groupedRun ht hends] at hread
    obtain ⟨rfl, rfl⟩ := Prod.mk.inj hread
    rw [hfield, hsplit, hrest]
    exact ⟨negative, .intro hbefore hsign hmark hrun hb⟩

end Marked

end Numeral

namespace Csv.Field

open Numeral Text

variable {d : Dialect} {field : List UInt8} {negative : Bool} {digits : List Nat}

theorem scan_of_toFloat {α : Type} {format : FloatFormat α} {converted : Converted α}
    (h : toFloat format d field = .ok converted) :
    ∃ result, scan format.budget d.decimalMarks field = .ok result ∧
      result.integral = converted.integral := by
  unfold toFloat FloatFormat.parse at h
  cases hscan : scan format.budget d.decimalMarks field with
  | error fault =>
    rw [hscan] at h
    cases h
  | ok result =>
    rw [hscan] at h
    dsimp only at h
    refine ⟨result, rfl, ?_⟩
    cases hvalue : format.magnitude result.mantissa with
    | none =>
      rw [hvalue] at h
      cases h
    | some value =>
      rw [hvalue] at h
      obtain rfl := Except.ok.inj h
      rfl

theorem scan_of_convert {type : ScalarType} (htype : type = .float ∨ type = .double)
    {converted : Converted type.Carrier} (h : convert d (.scalar type) field = .ok converted) :
    ∃ budget result, scan budget d.decimalMarks field = .ok result ∧
      result.integral = converted.integral := by
  obtain rfl | rfl := htype
  · exact ⟨_, scan_of_toFloat h⟩
  · exact ⟨_, scan_of_toFloat h⟩

structure KeepsIntegers (d : Dialect) : Prop where
  least : d.intMin.toInt ≤ 0
  greatest : 0 ≤ d.intMax.toInt
  separator : ∀ mark, d.thousands = some mark → isDigit mark = false

theorem keepsIntegers_of_validate (h : d.validate = .ok ()) : KeepsIntegers d := by
  -- The delimiter is looked at first, and nothing of that matters here.
  have hlate (hrest : (if d.thousands = some d.decimal then
        (do throw .separatorClash; pure () : Except OptionFault Unit)
      else if (isDigit d.decimal || d.thousands.any isDigit) = true then
        do throw .digitSeparator; pure ()
      else if 0 < d.intMin.toInt ∨ d.intMax.toInt < 0 then
        throw (.integerBounds d.intMin d.intMax)
      else pure ()) = .ok ()) : KeepsIntegers d := by
    split_ifs at hrest with hclash hdigit hbounds
    · cases hrest
    · cases hrest
    · rw [Bool.or_eq_true, not_or] at hdigit
      refine ⟨by omega, by omega, fun mark hmark => ?_⟩
      simpa [hmark] using hdigit.2
  unfold Dialect.validate at h
  dsimp only at h
  split at h
  · split at h
    · cases h
    · exact hlate h
  · exact hlate h

theorem written_of_convert_int (hd : KeepsIntegers d) {converted : Converted Int64}
    (h : convert d (.scalar .int) field = .ok converted) :
    ∃ negative digits, Written d.thousands field negative digits ∧ ofDigits digits < 10 ^ 19 := by
  have hconversion := conversion_convert hd.least hd.greatest hd.separator .int64 field
  rw [show convert d IntegerType.int64.field field = .ok converted from h] at hconversion
  cases hconversion with
  | @value negative digits value hw hs hv hf =>
    refine ⟨negative, digits, hw, ?_⟩
    have hword : Int64.minValue.toInt ≤ _ ∧ _ ≤ Int64.maxValue.toInt := hf.inWord
    rw [hv, Int64.toInt_minValue, Int64.toInt_maxValue] at hword
    cases negative <;> simp only [signed] at hword <;> omega

theorem convert_int_of_written (hd : KeepsIntegers d)
    (hw : Written d.thousands field negative digits) :
    (∃ converted, convert d (.scalar .int) field = .ok converted) ∨
      convert d (.scalar .int) field = .error (.outOfRange "i64") := by
  obtain ⟨rest, hl, hr⟩ := written_iff.1 hw
  have hn : ¬ Negated .int64 field := fun hn => by cases hn.1
  by_cases hf : IntegerType.int64.Fits d (signed negative (ofDigits digits))
  · exact .inl ⟨_, convert_of_within hd.least hd.greatest hd.separator hn hl hf hr⟩
  · exact .inr (convert_of_outside hd.least hd.greatest hd.separator hn hl hf)

theorem convert_int_of_leadingSeparator (hd : KeepsIntegers d)
    (hl : LeadingSeparator d.thousands field) :
    convert d (.scalar .int) field = .error .noDigits := by
  have hn : ¬ Negated .int64 field := fun hn => by cases hn.1
  exact convert_of_unnumbered hn (unnumbered_of_leadingSeparator hd.separator hl)

theorem convert_double_of_written (hd : KeepsIntegers d) (hafter : d.skipTrailingSpace = true)
    (hpoint : isBlank d.decimal = false) (hw : Written d.thousands field negative digits)
    (hnumber : ofDigits digits < 10 ^ 19) :
    ∃ converted, convert d (.scalar .double) field = .ok converted ∧
      converted.integral = true := by
  obtain ⟨rest, hl, hr⟩ := written_iff.1 hw
  obtain ⟨run, hsign, hrun, hends⟩ := hl.takeSign
  have hread : groupedRun d.thousands (takeSign (skipBlanks field)).2 = (digits, rest) := by
    rw [hsign]
    exact hrun.groupedRun hd.separator hends
  have hkeeps : Keeps FloatFormat.double.budget (ofDigits digits)
      (Mantissa.ofParts FloatFormat.double.budget digits []) :=
    .ofParts (by decide) hrun.le_nine
  obtain ⟨value, hvalue⟩ := hkeeps.exists_magnitude hnumber
  refine ⟨⟨if (takeSign (skipBlanks field)).1 then -value else value, true⟩, ?_, rfl⟩
  rw [convert, toFloat, FloatFormat.parse,
    scan_of_digits _ hread hrun.digits_ne_nil hr hafter hpoint]
  dsimp only
  rw [hvalue]
  rfl

/-- A field that is marked as an integer is one, in range or not, and has separators between its
digits only. There is one exception. A separator before the first digit is passed over, and such a
field has no digits for an integer. The other way round, every integer is read and marked where
blanks may follow it and the decimal point is none. -/
theorem integral_fields_are_integers (d : Dialect) (hd : d.validate = .ok ()) (field : List UInt8) :
    (∀ type, type = .float ∨ type = .double → ∀ converted : Converted type.Carrier,
      convert d (.scalar type) field = .ok converted → converted.integral = true →
      (¬ LeadingSeparator d.thousands field →
        (∃ negative digits, Written d.thousands field negative digits) ∧
        ((∃ integer, convert d (.scalar .int) field = .ok integer) ∨
          convert d (.scalar .int) field = .error (.outOfRange "i64"))) ∧
      (LeadingSeparator d.thousands field →
        (∃ negative digits, Preceded d.thousands field negative digits) ∧
        convert d (.scalar .int) field = .error .noDigits)) ∧
    (d.skipTrailingSpace = true → isBlank d.decimal = false →
      ∀ integer, convert d (.scalar .int) field = .ok integer →
        ∃ converted, convert d (.scalar .double) field = .ok converted ∧
          converted.integral = true) := by
  have hkeeps := keepsIntegers_of_validate hd
  refine ⟨fun type htype converted h hi => ?_, fun hafter hpoint integer h => ?_⟩
  · obtain ⟨budget, result, hscan, hsame⟩ := scan_of_convert htype h
    obtain ⟨digits, rest, hread, hdigits, hrest⟩ := digits_of_scan hscan (hsame.trans hi)
    refine ⟨fun hl => ?_, fun hl => ?_⟩
    · obtain ⟨negative, hw⟩ := written_of_groupedRun hkeeps.separator hread hdigits hrest hl
      exact ⟨⟨negative, digits, hw⟩, convert_int_of_written hkeeps hw⟩
    · obtain ⟨negative, hp⟩ := preceded_of_groupedRun hkeeps.separator hread hdigits hrest hl
      exact ⟨⟨negative, digits, hp⟩, convert_int_of_leadingSeparator hkeeps hl⟩
  · obtain ⟨negative, digits, hw, hnumber⟩ := written_of_convert_int hkeeps h
    exact convert_double_of_written hkeeps hafter hpoint hw hnumber

theorem exists_converted {type : ScalarType}
    (h : (match convert d (.scalar type) field with
      | .ok converted => converted.integral
      | .error _ => false) = true) :
    ∃ converted, convert d (.scalar type) field = .ok converted ∧ converted.integral = true := by
  cases hconvert : convert d (.scalar type) field with
  | ok converted =>
    rw [hconvert] at h
    exact ⟨converted, rfl, h⟩
  | error fault =>
    rw [hconvert] at h
    cases h

/-- With a separator and a bound, 1,234 is too large for an integer and 1,0 is one. -/
theorem integral_fields_are_integers_grouped :
    let d : Dialect := { delimiter := 59, thousands := some 44, intMax := 999 }
    (∃ converted, convert d (.scalar .double) [49, 44, 50, 51, 52, 32] = .ok converted ∧
      converted.integral = true) ∧
    (∃ negative digits, Written d.thousands [49, 44, 50, 51, 52, 32] negative digits) ∧
    convert d (.scalar .int) [49, 44, 50, 51, 52, 32] = .error (.outOfRange "i64") ∧
    (∃ integer, convert d (.scalar .int) [49, 44, 48] = .ok integer) ∧
    ∃ converted, convert d (.scalar .double) [49, 44, 48] = .ok converted ∧
      converted.integral = true := by
  intro d
  have hd : d.validate = .ok () := by decide
  obtain ⟨converted, hconvert, hi⟩ : ∃ converted,
      convert d (.scalar .double) [49, 44, 50, 51, 52, 32] = .ok converted ∧
        converted.integral = true := exists_converted (by decide +kernel)
  obtain ⟨integer, hinteger, -⟩ : ∃ integer, convert d (.scalar .int) [49, 44, 48] = .ok integer ∧
      integer.integral = true := exists_converted (by decide +kernel)
  have hlead : ¬ LeadingSeparator d.thousands [49, 44, 50, 51, 52, 32] := by
    rintro ⟨mark, rest, hmark, hsplit⟩
    cases hmark
    cases hsplit
  have hlarge : ¬ ∃ integer, convert d (.scalar .int) [49, 44, 50, 51, 52, 32] = .ok integer := by
    rintro ⟨integer, h⟩
    have hfault : (convert d (.scalar .int) [49, 44, 50, 51, 52, 32]).isOk = false := by
      decide +kernel
    rw [h] at hfault
    cases hfault
  obtain ⟨hwritten, hint⟩ := ((integral_fields_are_integers d hd _).1 .double (.inr rfl) converted
    hconvert hi).1 hlead
  exact ⟨⟨converted, hconvert, hi⟩, hwritten, hint.resolve_left hlarge, ⟨integer, hinteger⟩,
    (integral_fields_are_integers d hd _).2 rfl (by decide) integer hinteger⟩

/-- The field ,1 is a floating point number that is marked, and no integer. -/
theorem leading_separator_marked :
    let d : Dialect := { delimiter := 59, thousands := some 44 }
    d.validate = .ok () ∧
    (∃ converted, convert d (.scalar .double) [44, 49] = .ok converted ∧
      converted.integral = true) ∧
    (∃ converted, convert d (.scalar .float) [44, 49] = .ok converted ∧
      converted.integral = true) ∧
    convert d (.scalar .int) [44, 49] = .error .noDigits := by
  intro d
  exact ⟨by decide, exists_converted (by decide +kernel), exists_converted (by decide +kernel), rfl⟩

end Csv.Field

end TypedTable
