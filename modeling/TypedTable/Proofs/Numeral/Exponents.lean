import TypedTable.Numeral.Scaling
import TypedTable.Proofs.Numeral.Truncation

/-!
# Exponents within their range

The exponent of a mantissa moves by one with a digit, so that of a field is far from the ends of a
word until the written exponent is added, and there it stays at an end. Every exponent is the case
of exactly one scaling, whose powers of ten are in the table.
-/

set_option autoImplicit false

namespace TypedTable.Numeral

variable {budget places most : Nat} {exponent n : Int} {digits : List Nat} {m : Mantissa}
  {number : Decimal} {scaling : Scaling} {α : Type} {format : FloatFormat α}
  {marks : DecimalMarks} {field rest : List UInt8}

def InWord (n : Int) : Prop := Int64.minValue.toInt ≤ n ∧ n ≤ Int64.maxValue.toInt

instance (n : Int) : Decidable (InWord n) := inferInstanceAs (Decidable (_ ∧ _))

theorem inWord_iff : InWord n ↔ -2 ^ 63 ≤ n ∧ n < 2 ^ 63 := by
  rw [InWord, Int64.toInt_minValue, Int64.toInt_maxValue]
  omega

/-! ## Saturation -/

theorem inWord_saturate (n : Int) : InWord (saturate n) := by
  rw [inWord_iff, saturate, Int64.toInt_minValue, Int64.toInt_maxValue]
  omega

theorem exponentOfDigits_eq (digits : List Nat) :
    exponentOfDigits digits = min (ofDigits digits : Int) Int64.maxValue.toInt := by
  induction digits using List.reverseRecOn with
  | nil => rfl
  | append_singleton first digit ih =>
    rw [exponentOfDigits] at ih ⊢
    rw [List.foldl_append, ih, ofDigits_concat]
    simp only [List.foldl_cons, List.foldl_nil, saturate, Int64.toInt_minValue,
      Int64.toInt_maxValue]
    omega

theorem scannedExponent_eq (negative : Bool) (hword : ofDigits digits < 2 ^ 63) :
    scannedExponent negative digits = signed negative (ofDigits digits) := by
  rw [scannedExponent, exponentOfDigits_eq, Int64.toInt_maxValue, min_eq_left (by omega)]
  rfl

/-- The written exponent is added as it is if it fits a word. -/
theorem foldExponent_eq (hword : ofDigits number.exponentDigits < 2 ^ 63) (counted : Int) :
    number.foldExponent counted =
      if number.exponentDigits = [] then counted + number.exponent
      else saturate (counted + number.exponent) := by
  rw [Decimal.foldExponent, scannedExponent_eq _ hword]
  split_ifs with hnone
  · have hzero : number.exponent = 0 := by
      rw [Decimal.exponent, hnone]
      cases number.exponentNegative <;> rfl
    rw [hzero, add_zero]
  · rfl

/-! ## Counting -/

/-- Digits before the point raise the exponent by one at most, digits behind it lower it so. -/
theorem Mantissa.Holds.exponent_bounds (h : Mantissa.Holds budget digits places m) :
    -(places : Int) ≤ m.exponent ∧ m.exponent + places ≤ digits.length := by
  have hlength := length_significant_le digits
  rw [h.exponent]
  omega

theorem exponent_ofParts_bounds (hbudget : 0 < budget) (integer fraction : List Nat) :
    -(fraction.length : Int) ≤ (Mantissa.ofParts budget integer fraction).exponent ∧
      (Mantissa.ofParts budget integer fraction).exponent ≤ integer.length := by
  have hbounds := (Mantissa.Holds.ofParts hbudget integer fraction).exponent_bounds
  rw [List.length_append] at hbounds
  omega

theorem Reads.inWord_counted (h : Reads marks field number rest) (hbudget : 0 < budget)
    (hlength : field.length < 2 ^ 62) (before behind : Nat) :
    InWord (Mantissa.ofParts budget (number.integer.take before)
      (number.fraction.take behind)).exponent := by
  have hbounds := exponent_ofParts_bounds hbudget (number.integer.take before)
    (number.fraction.take behind)
  have hfield := h.length_le
  have hbefore := number.integer.length_take_le' before
  have hbehind := number.fraction.length_take_le' behind
  rw [inWord_iff]
  omega

theorem Reads.inWord_folded (h : Reads marks field number rest) (hbudget : 0 < budget)
    (hlength : field.length < 2 ^ 62) : InWord (number.mantissa budget).exponent := by
  have hcounted := h.inWord_counted hbudget hlength number.integer.length number.fraction.length
  rw [List.take_length, List.take_length] at hcounted
  rw [Decimal.mantissa, Decimal.foldExponent]
  split_ifs
  · exact hcounted
  · exact inWord_saturate _

/-! ## Scaling -/

namespace Scaling

/-- When a scaling is the one for an exponent. What is computed for it is a word, and no power is
beyond the largest one of the table. -/
inductive Applies (most : Nat) (exponent : Int) : Scaling → Prop
  | infinite (he : (most : Int) < exponent) : Applies most exponent .infinite
  | multiply {power : Nat} (he : exponent = power) (hp : power ≤ most) :
    Applies most exponent (.multiply power)
  | divide {power : Nat} (he : -exponent = power) (hw : InWord (-exponent)) (h0 : 0 < power)
    (hp : power ≤ most) : Applies most exponent (.divide power)
  | divideTwice {power : Nat} (he : -(most : Int) - exponent = power)
    (hw : InWord (-(most : Int) - exponent)) (h0 : 0 < power) (hp : power ≤ most) :
    Applies most exponent (.divideTwice power most)
  | vanish (he : exponent < -2 * (most : Int)) : Applies most exponent .vanish

theorem applies_ofExponent (hmost : InWord most) (exponent : Int) :
    Applies most exponent (ofExponent most exponent) := by
  rw [inWord_iff] at hmost
  unfold ofExponent
  split_ifs with hlarge hnonneg hsmall htiny
  · exact .infinite hlarge
  · exact .multiply (by omega) (by omega)
  · exact .divide (by omega) (inWord_iff.2 (by omega)) (by omega) (by omega)
  · exact .divideTwice (by omega) (inWord_iff.2 (by omega)) (by omega) (by omega)
  · exact .vanish (by omega)

theorem Applies.eq_ofExponent (h : Applies most exponent scaling) :
    scaling = ofExponent most exponent := by
  unfold ofExponent
  cases h with
  | infinite he => rw [if_pos he]
  | multiply he hp => rw [if_neg (by omega), if_pos (by omega), he, Int.toNat_natCast]
  | divide he hw h0 hp =>
    rw [if_neg (by omega), if_neg (by omega), if_pos (by omega), he, Int.toNat_natCast]
  | divideTwice he hw h0 hp =>
    rw [if_neg (by omega), if_neg (by omega), if_neg (by omega), if_pos (by omega), he,
      Int.toNat_natCast]
  | vanish he => rw [if_neg (by omega), if_neg (by omega), if_neg (by omega), if_neg (by omega)]

end Scaling

namespace FloatFormat

def scale (format : FloatFormat α) (value : α) : Scaling → Option α
  | .infinite => none
  | .multiply k => some (format.mul value (format.power k))
  | .divide k => some (format.div value (format.power k))
  | .divideTwice k l => some (format.div (format.div value (format.power k)) (format.power l))
  | .vanish => some (format.ofNat 0)

theorem magnitude_of_kept (format : FloatFormat α) (hkept : m.kept ≠ []) :
    format.magnitude m =
      (format.scale (format.accumulate m.kept)
        (Scaling.ofExponent format.mostPower m.exponent)).filter fun v => !format.isInfinite v := by
  rw [magnitude, if_neg (by simpa using hkept)]
  cases Scaling.ofExponent format.mostPower m.exponent <;> rfl

end FloatFormat

/-- From the first digit of a field to the powers of ten, no exponent leaves the words and no power
the table. -/
structure StaysInRange (format : FloatFormat α) (marks : DecimalMarks) (field : List UInt8)
    (number : Decimal) : Prop where
  /-- The exponent after any of the digits. -/
  counted (before behind : Nat) : InWord
    (Mantissa.ofParts format.budget (number.integer.take before)
      (number.fraction.take behind)).exponent
  /-- The written exponent after any of its digits. -/
  written (count : Nat) : InWord (exponentOfDigits (number.exponentDigits.take count)) ∧
    exponentOfDigits (number.exponentDigits.take count) =
      min (ofDigits (number.exponentDigits.take count) : Int) Int64.maxValue.toInt
  folded : InWord (number.mantissa format.budget).exponent
  scanned {result : Scan} : scan format.budget marks field = .ok result →
    result.mantissa = number.mantissa format.budget
  scaled : ofDigits (number.mantissa format.budget).kept ≠ 0 → ∃! scaling,
    Scaling.Applies format.mostPower (number.mantissa format.budget).exponent scaling ∧
      format.magnitude (number.mantissa format.budget) =
        (format.scale (format.accumulate (number.mantissa format.budget).kept) scaling).filter
          fun v => !format.isInfinite v

theorem Reads.staysInRange (h : Reads marks field number rest) (hbudget : 0 < format.budget)
    (hmost : InWord format.mostPower) (hlength : field.length < 2 ^ 62) :
    StaysInRange format marks field number where
  counted before behind := h.inWord_counted hbudget hlength before behind
  written count := by
    have hvalue := exponentOfDigits_eq (number.exponentDigits.take count)
    refine ⟨?_, hvalue⟩
    rw [hvalue, inWord_iff, Int64.toInt_maxValue]
    omega
  folded := h.inWord_folded hbudget hlength
  scanned := h.mantissa_eq
  scaled hnonzero := by
    have hkept : (number.mantissa format.budget).kept ≠ [] := by
      intro hnil
      exact hnonzero (congrArg ofDigits hnil)
    exact ⟨_, ⟨Scaling.applies_ofExponent hmost _, format.magnitude_of_kept hkept⟩,
      fun scaling hs => hs.1.eq_ofExponent⟩

end TypedTable.Numeral
