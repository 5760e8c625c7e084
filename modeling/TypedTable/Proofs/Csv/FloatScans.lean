import TypedTable.Csv.Field
import TypedTable.Proofs.Numeral.Exponents

/-!
# Floating point fields before they are rounded

A floating point field is scanned to digits and an exponent before any number of the format is
scaled. What is scanned is the number but for the digits beyond the budget of the format, and the
exponents on the way are words that choose powers of the table.
-/

set_option autoImplicit false

namespace TypedTable.Csv.Field

open Numeral

variable {d : Dialect} {field : List UInt8} {α : Type} {format : FloatFormat α}

theorem exists_scan (hdigits : toFloat format d field ≠ .error .noDigits)
    (hend : toFloat format d field ≠ .error .trailing) :
    ∃ result, scan format.budget d.decimalMarks field = .ok result := by
  cases hscan : scan format.budget d.decimalMarks field with
  | ok result => exact ⟨result, rfl⟩
  | error fault =>
    have hfault : toFloat format d field = .error (.ofFloat (.scan fault)) := by
      rw [toFloat, FloatFormat.parse, hscan]
    cases fault with
    | noDigits => exact absurd hfault hdigits
    | trailing => exact absurd hfault hend

theorem ne_error {type : FieldType} (h : (convert d type field).isOk = true)
    (fault : FieldFault) : convert d type field ≠ .error fault := by
  intro herror
  rw [herror] at h
  cases h

/-- A field that is a floating point number by its form is scanned to the number it denotes, but for
the digits beyond the first 17 or 9 significant ones. The exponent is kept as a word, which is the
exact one unless that is beyond the words. -/
theorem scanned_up_to_budget (d : Dialect) (field : List UInt8) (type : ScalarType) (budget : Nat)
    (htype : type = .double ∧ budget = 17 ∨ type = .float ∧ budget = 9)
    (hdigits : convert d (.scalar type) field ≠ .error .noDigits)
    (hend : convert d (.scalar type) field ≠ .error .trailing) :
    ∃ result, scan budget d.decimalMarks field = .ok result ∧
      (∃ number rest, Reads d.decimalMarks field number rest) ∧
      ∀ number rest, Reads d.decimalMarks field number rest →
        ofDigits number.exponentDigits < 2 ^ 63 →
        Truncates budget number result.mantissa.kept (number.keptExponent budget) ∧
        result.mantissa.exponent =
          if number.exponentDigits = [] then number.keptExponent budget
          else saturate (number.keptExponent budget) := by
  have hscan : 0 < budget ∧ ∃ result, scan budget d.decimalMarks field = .ok result := by
    obtain ⟨rfl, rfl⟩ | ⟨rfl, rfl⟩ := htype
    · have hdouble : ∃ result, scan FloatFormat.double.budget d.decimalMarks field = .ok result :=
        exists_scan hdigits hend
      exact ⟨by decide, hdouble⟩
    · have hsingle : ∃ result, scan FloatFormat.single.budget d.decimalMarks field = .ok result :=
        exists_scan hdigits hend
      exact ⟨by decide, hsingle⟩
  obtain ⟨hbudget, result, hscan⟩ := hscan
  refine ⟨result, hscan, exists_reads _ field, fun number rest hreads hword => ?_⟩
  rw [hreads.mantissa_eq hscan]
  exact ⟨number.truncates hbudget hreads.le_nine, foldExponent_eq hword _⟩

/-- Ten digits and a place, one digit more than a single number has room for: 1,234567890.5e-3. -/
theorem scanned_up_to_budget_single :
    let d : Dialect := { delimiter := 59, thousands := some 44 }
    let field : List UInt8 := [49, 44, 50, 51, 52, 53, 54, 55, 56, 57, 48, 46, 53, 101, 45, 51]
    let number : Decimal := ⟨false, [1, 2, 3, 4, 5, 6, 7, 8, 9, 0], [5], true, [3]⟩
    convert d (.scalar .float) field ≠ .error .noDigits ∧
      convert d (.scalar .float) field ≠ .error .trailing ∧
      Reads d.decimalMarks field number [] ∧ ofDigits number.exponentDigits < 2 ^ 63 ∧
      ∃ result, scan 9 d.decimalMarks field = .ok result ∧
        Truncates 9 number result.mantissa.kept (-2) ∧ result.mantissa.exponent = -2 := by
  intro d field number
  have hok : (convert d (.scalar .float) field).isOk = true := by decide +kernel
  have hrun : DigitRun (some 44) [49, 44, 50, 51, 52, 53, 54, 55, 56, 57, 48] number.integer :=
    .separated (by decide) rfl (.of_digits (by simp [isDigit]) (by decide))
  have hends : Ends (some 44) [46, 53, 101, 45, 51] := by
    refine ⟨rfl, fun mark later hrest hmark => ?_⟩
    cases hrest
    exact absurd hmark (by decide)
  have hfraction : FractionPart 46 (46 :: ([53] ++ [101, 45, 51])) [5] [101, 45, 51] :=
    .digits (by simp [isDigit]) rfl
  have hexponent : ExponentPart 101 (101 :: ([45] ++ ([51] ++ []))) true [3] [] :=
    .digits rfl .minus (by decide) (by simp [isDigit]) rfl
  have hfront : Front ([] ++ ([] ++ field)) false field :=
    .intro (by simp) .none (by simp [field, Text.isBlank])
  have hreads : Reads d.decimalMarks field number [] :=
    .intro hfront (.digits hrun hends) hfraction hexponent
  obtain ⟨result, hscan, -, hall⟩ := scanned_up_to_budget d field .float 9 (.inr ⟨rfl, rfl⟩)
    (ne_error hok _) (ne_error hok _)
  obtain ⟨htruncates, hexact⟩ := hall number [] hreads (by decide)
  exact ⟨ne_error hok _, ne_error hok _, hreads, by decide, result, hscan, htruncates,
    hexact.trans (by decide)⟩

/-- The exponents of a floating point field are words from its first digit on, whatever is written
in the field, and each is the case of exactly one scaling by powers of the table. -/
theorem exponents_in_range (d : Dialect) (field : List UInt8) (hlength : field.length < 2 ^ 62) :
    (∃ number rest, Reads d.decimalMarks field number rest) ∧
      ∀ number rest, Reads d.decimalMarks field number rest →
        StaysInRange .double d.decimalMarks field number ∧
          StaysInRange .single d.decimalMarks field number :=
  ⟨exists_reads _ field, fun _ _ h => ⟨h.staysInRange (by decide) (by decide) hlength,
    h.staysInRange (by decide) (by decide) hlength⟩⟩

/-- 1e-400 is divided twice as a double number, and vanishes as a single one. -/
theorem exponents_in_range_tiny :
    let d : Dialect := {}
    let field : List UInt8 := [49, 101, 45, 52, 48, 48]
    let number : Decimal := ⟨false, [1], [], true, [4, 0, 0]⟩
    field.length < 2 ^ 62 ∧ Reads d.decimalMarks field number [] ∧
      StaysInRange .double d.decimalMarks field number ∧
      StaysInRange .single d.decimalMarks field number ∧
      Scaling.Applies 308 (number.mantissa 17).exponent (.divideTwice 92 308) ∧
      Scaling.Applies 38 (number.mantissa 9).exponent .vanish := by
  intro d field number
  have hends : Ends none [101, 45, 52, 48, 48] :=
    ⟨rfl, fun mark later hrest hmark => by cases hmark⟩
  have hinteger : IntegerPart none ([49] ++ [101, 45, 52, 48, 48]) [1] [101, 45, 52, 48, 48] :=
    .digits (.last rfl) hends
  have hfraction : FractionPart 46 [101, 45, 52, 48, 48] [] [101, 45, 52, 48, 48] :=
    .absent (by simp)
  have hexponent : ExponentPart 101 (101 :: ([45] ++ ([52, 48, 48] ++ []))) true [4, 0, 0] [] :=
    .digits rfl .minus (by decide) (by simp [isDigit]) rfl
  have hfront : Front ([] ++ ([] ++ field)) false field :=
    .intro (by simp) .none (by simp [field, Text.isBlank])
  have hreads : Reads d.decimalMarks field number [] := .intro hfront hinteger hfraction hexponent
  obtain ⟨hdouble, hsingle⟩ := (exponents_in_range d field (by decide)).2 number [] hreads
  exact ⟨by decide, hreads, hdouble, hsingle,
    .divideTwice (by decide) (by decide) (by decide) (by decide), .vanish (by decide)⟩

end TypedTable.Csv.Field
