import Mathlib.Algebra.Order.Ring.Rat
import Mathlib.Tactic.NormNum
import TypedTable.Numeral.Decimal
import TypedTable.Proofs.Numeral.Grammar

/-!
# The grammar of decimal numbers

A decimal number is read from the front of a text, each of its parts as far as it goes: blanks and a
sign, the digits of the integer part with separators before some of them, a point and the digits of
the fraction, a marker and the exponent. Every text is read in exactly one way, and a scan depends
on the parts alone.
-/

set_option autoImplicit false

namespace TypedTable.Numeral

open Text

variable {separator : Option UInt8} {point marker : UInt8} {marks : DecimalMarks}
  {field text run rest : List UInt8} {digits : List Nat} {negative : Bool}

structure Decimal where
  negative : Bool
  /-- The digits before the point. -/
  integer : List Nat
  /-- The digits behind the point. -/
  fraction : List Nat
  exponentNegative : Bool
  /-- The digits behind the marker, none without an exponent. -/
  exponentDigits : List Nat
deriving DecidableEq, Repr

namespace Decimal

def allDigits (number : Decimal) : List Nat := number.integer ++ number.fraction

def exponent (number : Decimal) : Int :=
  signed number.exponentNegative (ofDigits number.exponentDigits)

def magnitude (number : Decimal) : Rat :=
  ofDigits number.allDigits * 10 ^ (number.exponent - number.fraction.length)

end Decimal

/-- The separator, unless it is a digit: then it is read as one. -/
def DecimalMarks.grouping (marks : DecimalMarks) : Option UInt8 :=
  marks.separator.filter fun mark => !isDigit mark

/-! ## Parts -/

/-- Blanks and a sign, then the rest of the text. Neither a blank nor a sign comes next if there was
no sign. -/
inductive Front : List UInt8 → Bool → List UInt8 → Prop
  | intro {before sign rest : List UInt8} {negative : Bool}
    (hb : ∀ byte ∈ before, isBlank byte = true) (hs : Sign sign negative)
    (hnext : sign = [] → ∀ byte ∈ rest.head?, isBlank byte = false ∧ byte ≠ 43 ∧ byte ≠ 45) :
    Front (before ++ (sign ++ rest)) negative rest

/-- The digits of the integer part, and the rest of the text. A separator may stand before the first
digit too. -/
inductive IntegerPart (separator : Option UInt8) : List UInt8 → List Nat → List UInt8 → Prop
  | absent {rest : List UInt8} (he : Ends separator rest) : IntegerPart separator rest [] rest
  | digits {run rest : List UInt8} {digits : List Nat} (hr : DigitRun separator run digits)
    (he : Ends separator rest) : IntegerPart separator (run ++ rest) digits rest
  | preceded {mark : UInt8} {run rest : List UInt8} {digits : List Nat}
    (hm : separator = some mark) (hr : DigitRun separator run digits)
    (he : Ends separator rest) : IntegerPart separator (mark :: (run ++ rest)) digits rest

inductive FractionPart (point : UInt8) : List UInt8 → List Nat → List UInt8 → Prop
  | absent {rest : List UInt8} (hnext : ∀ byte ∈ rest.head?, byte ≠ point) :
    FractionPart point rest [] rest
  | digits {run rest : List UInt8} (hd : ∀ byte ∈ run, isDigit byte = true)
    (he : startsWithDigit rest = false) :
    FractionPart point (point :: (run ++ rest)) (run.map digitValue) rest

/-- The sign and the digits of the exponent, if its marker comes next with a digit behind it, and
the rest of the text. -/
inductive ExponentPart (marker : UInt8) : List UInt8 → Bool → List Nat → List UInt8 → Prop
  | absent {rest : List UInt8}
    (hnext : ∀ {byte : UInt8} {sign later : List UInt8} {negative : Bool},
      rest = byte :: (sign ++ later) → toLower byte = toLower marker → Sign sign negative →
        startsWithDigit later = false) :
    ExponentPart marker rest false [] rest
  | digits {byte : UInt8} {sign run rest : List UInt8} {negative : Bool}
    (hm : toLower byte = toLower marker) (hs : Sign sign negative) (hne : run ≠ [])
    (hd : ∀ byte ∈ run, isDigit byte = true) (he : startsWithDigit rest = false) :
    ExponentPart marker (byte :: (sign ++ (run ++ rest))) negative (run.map digitValue) rest

/-- The field begins with the number and goes on with `rest`. -/
inductive Reads (marks : DecimalMarks) : List UInt8 → Decimal → List UInt8 → Prop
  | intro {field start middle tail rest : List UInt8} {number : Decimal}
    (hfront : Front field number.negative start)
    (hinteger : IntegerPart marks.grouping start number.integer middle)
    (hfraction : FractionPart marks.point middle number.fraction tail)
    (hexponent : ExponentPart marks.exponent tail number.exponentNegative number.exponentDigits
      rest) :
    Reads marks field number rest

/-! ## Reading a part -/

theorem skipBlanks_head (text : List UInt8) :
    ∀ byte ∈ (skipBlanks text).head?, isBlank byte = false := by
  intro byte hbyte
  have hfirst := List.head?_dropWhile_not isBlank text
  rw [skipBlanks] at hbyte
  rw [hbyte] at hfirst
  simpa using hfirst

theorem Front.takeSign (h : Front field negative rest) :
    takeSign (skipBlanks field) = (negative, rest) := by
  obtain ⟨hb, hs, hnext⟩ := h
  cases hs with
  | plus | minus => rw [skipBlanks_append hb (by simp [isBlank])]; rfl
  | none =>
    rw [List.nil_append, skipBlanks_append hb fun byte hm => (hnext rfl byte hm).1]
    cases rest with
    | nil => rfl
    | cons byte later =>
      obtain ⟨-, hplus, hminus⟩ := hnext rfl byte rfl
      exact takeSign_of_ne hminus hplus

theorem exists_front (field : List UInt8) : ∃ negative rest, Front field negative rest := by
  have hfirst := skipBlanks_head field
  have hsplit : field = field.takeWhile isBlank ++ skipBlanks field :=
    List.takeWhile_append_dropWhile.symm
  obtain ⟨sign, hs, hsign, hnext⟩ := exists_sign (skipBlanks field)
  generalize takeSign (skipBlanks field) = head at hs hsign
  obtain ⟨negative, rest⟩ := head
  rw [hsign] at hsplit hfirst hnext
  refine ⟨negative, rest, hsplit ▸ .intro (fun byte hm => List.mem_takeWhile_imp hm) hs ?_⟩
  rintro rfl byte hm
  exact ⟨hfirst byte hm, hnext rfl byte hm⟩

theorem groupedRun_grouping (marks : DecimalMarks) (text : List UInt8) :
    groupedRun marks.grouping text = groupedRun marks.separator text := by
  induction text with
  | nil => rfl
  | cons byte rest ih =>
    rw [groupedRun, groupedRun, ih]
    by_cases hdigit : isDigit byte = true
    · rw [if_pos hdigit, if_pos hdigit]
    · have hsame : marks.grouping = some byte ↔ marks.separator = some byte := by
        simp [DecimalMarks.grouping, hdigit]
      simp only [hsame]

theorem isDigit_of_grouping {mark : UInt8} (h : marks.grouping = some mark) :
    isDigit mark = false := by
  simpa using (Option.filter_eq_some_iff.1 h).2

theorem IntegerPart.groupedRun (h : IntegerPart separator text digits rest)
    (ht : ∀ mark, separator = some mark → isDigit mark = false) :
    groupedRun separator text = (digits, rest) := by
  cases h with
  | absent he => exact he.groupedRun
  | digits hr he => exact hr.groupedRun ht he
  | preceded hm hr he =>
    rw [Numeral.groupedRun, if_neg (by simp [ht _ hm]), if_pos ⟨hm, hr.startsWithDigit _⟩]
    exact hr.groupedRun ht he

theorem exists_integerPart (separator : Option UInt8) (text : List UInt8) :
    ∃ digits rest, IntegerPart separator text digits rest := by
  cases hdigit : startsWithDigit text with
  | true =>
    obtain ⟨run, digits, rest, rfl, hr, he⟩ := exists_run hdigit
    exact ⟨digits, rest, .digits hr he⟩
  | false =>
    by_cases hsep : ∃ mark later, text = mark :: later ∧ separator = some mark ∧
        startsWithDigit later = true
    · obtain ⟨mark, later, rfl, hm, hlater⟩ := hsep
      obtain ⟨run, digits, rest, rfl, hr, he⟩ := exists_run hlater
      exact ⟨digits, rest, .preceded hm hr he⟩
    · refine ⟨[], text, .absent ⟨hdigit, ?_⟩⟩
      rintro mark later rfl hm
      exact Bool.eq_false_iff.2 fun hlater => hsep ⟨mark, later, rfl, hm, hlater⟩

theorem plainRun_append (hd : ∀ byte ∈ run, isDigit byte = true)
    (he : startsWithDigit rest = false) : plainRun (run ++ rest) = (run.map digitValue, rest) := by
  rw [plainRun, List.takeWhile_append_of_pos hd, List.dropWhile_append_of_pos hd]
  cases rest with
  | nil => simp
  | cons byte later =>
    have hbyte : ¬ isDigit byte = true := Bool.eq_false_iff.1 he
    rw [List.takeWhile_cons, List.dropWhile_cons, if_neg hbyte, if_neg hbyte, List.append_nil]

theorem exists_plainRun (text : List UInt8) : ∃ run rest, text = run ++ rest ∧
    (∀ byte ∈ run, isDigit byte = true) ∧ startsWithDigit rest = false := by
  refine ⟨text.takeWhile isDigit, text.dropWhile isDigit, List.takeWhile_append_dropWhile.symm,
    fun byte hm => List.mem_takeWhile_imp hm, ?_⟩
  have hfirst := List.head?_dropWhile_not isDigit text
  rw [startsWithDigit]
  cases hnext : (text.dropWhile isDigit).head? with
  | none => rfl
  | some byte =>
    rw [hnext] at hfirst
    simpa using hfirst

theorem FractionPart.takeFraction (h : FractionPart point text digits rest) :
    ∃ found : Option (List Nat), takeFraction point text = (found, rest) ∧
      found.getD [] = digits := by
  cases h with
  | absent hnext =>
    refine ⟨none, ?_, rfl⟩
    cases text with
    | nil => rfl
    | cons byte later => rw [Numeral.takeFraction, if_neg (hnext byte rfl)]
  | digits hd he =>
    refine ⟨some _, ?_, rfl⟩
    rw [Numeral.takeFraction, if_pos rfl, plainRun_append hd he]

theorem exists_fractionPart (point : UInt8) (text : List UInt8) :
    ∃ digits rest, FractionPart point text digits rest := by
  cases text with
  | nil => exact ⟨[], [], .absent (by simp)⟩
  | cons byte later =>
    by_cases hpoint : byte = point
    · subst hpoint
      obtain ⟨run, rest, rfl, hd, he⟩ := exists_plainRun later
      exact ⟨_, rest, .digits hd he⟩
    · exact ⟨[], _, .absent (by simpa using hpoint)⟩

/-- The exponent that is scanned. Its digits may be more than a word can hold. -/
def scannedExponent (negative : Bool) (digits : List Nat) : Int :=
  if negative then -exponentOfDigits digits else exponentOfDigits digits

theorem ExponentPart.takeExponent (h : ExponentPart marker text negative digits rest) :
    (digits = [] ∧ rest = text ∧ takeExponent marker text = none) ∨
      (digits ≠ [] ∧ takeExponent marker text = some (scannedExponent negative digits, rest)) := by
  cases h with
  | absent hnext =>
    refine .inl ⟨rfl, rfl, ?_⟩
    cases text with
    | nil => rfl
    | cons byte later =>
      rw [Numeral.takeExponent]
      split_ifs with hmarker
      · obtain ⟨sign, hs, hsplit, -⟩ := exists_sign later
        have hdigit := hnext (congrArg (byte :: ·) hsplit) hmarker hs
        dsimp only
        rw [if_neg (by simp [hdigit])]
      · rfl
  | @digits byte sign run _ _ hm hs hne hd he =>
    refine .inr ⟨by simpa using hne, ?_⟩
    have hdigit : startsWithDigit (run ++ rest) = true := by
      cases run with
      | nil => exact absurd rfl hne
      | cons byte later => exact hd byte (by simp)
    rw [Numeral.takeExponent, if_pos hm]
    dsimp only
    rw [hs.takeSign hdigit, if_pos hdigit, plainRun_append hd he]
    rfl

theorem exists_exponentPart (marker : UInt8) (text : List UInt8) :
    ∃ negative digits rest, ExponentPart marker text negative digits rest := by
  by_cases hfound : ∃ byte sign later negative, text = byte :: (sign ++ later) ∧
      toLower byte = toLower marker ∧ Sign sign negative ∧ startsWithDigit later = true
  · obtain ⟨byte, sign, later, negative, rfl, hm, hs, hdigit⟩ := hfound
    obtain ⟨run, rest, rfl, hd, he⟩ := exists_plainRun later
    refine ⟨negative, _, rest, .digits hm hs ?_ hd he⟩
    rintro rfl
    rw [List.nil_append, he] at hdigit
    cases hdigit
  · refine ⟨false, [], text, .absent fun htext hm hs => Bool.eq_false_iff.2 fun hdigit => ?_⟩
    exact hfound ⟨_, _, _, _, htext, hm, hs, hdigit⟩

/-! ## Reading a number -/

def Decimal.foldExponent (number : Decimal) (counted : Int) : Int :=
  if number.exponentDigits = [] then counted
  else saturate (counted + scannedExponent number.exponentNegative number.exponentDigits)

def Decimal.mantissa (budget : Nat) (number : Decimal) : Mantissa :=
  let counted := Mantissa.ofParts budget number.integer number.fraction
  { counted with exponent := number.foldExponent counted.exponent }

theorem exists_reads (marks : DecimalMarks) (field : List UInt8) :
    ∃ number rest, Reads marks field number rest := by
  obtain ⟨negative, start, hfront⟩ := exists_front field
  obtain ⟨integer, middle, hinteger⟩ := exists_integerPart marks.grouping start
  obtain ⟨fraction, tail, hfraction⟩ := exists_fractionPart marks.point middle
  obtain ⟨sign, exponent, rest, hexponent⟩ := exists_exponentPart marks.exponent tail
  exact ⟨⟨negative, integer, fraction, sign, exponent⟩, rest,
    .intro hfront hinteger hfraction hexponent⟩

/-- What a scan comes to is said by the number that the field begins with and by what follows. -/
theorem Reads.scan {number : Decimal} (h : Reads marks field number rest) (budget : Nat) :
    ∃ integral, scan budget marks field =
      if number.allDigits = [] then .error .noDigits
      else if (if marks.blanksMayFollow then skipBlanks rest else rest) = [] then
        .ok ⟨number.negative, number.mantissa budget, integral⟩
      else .error .trailing := by
  obtain ⟨hfront, hinteger, hfraction, hexponent⟩ := h
  have hrun := hinteger.groupedRun fun mark => isDigit_of_grouping
  rw [groupedRun_grouping] at hrun
  obtain ⟨found, htake, hfound⟩ := hfraction.takeFraction
  unfold Numeral.scan
  simp only [hfront.takeSign, hrun, htake, hfound]
  rcases hexponent.takeExponent with ⟨hnone, rfl, hpower⟩ | ⟨hsome, hpower⟩
  · refine ⟨found.isNone && true, ?_⟩
    simp [hpower, Decimal.allDigits, Decimal.mantissa, Decimal.foldExponent, hnone]
  · refine ⟨found.isNone && false, ?_⟩
    simp [hpower, Decimal.allDigits, Decimal.mantissa, Decimal.foldExponent, hsome]

theorem Reads.mantissa_eq {number : Decimal} {budget : Nat} {result : Scan}
    (h : Reads marks field number rest) (hscan : Numeral.scan budget marks field = .ok result) :
    result.mantissa = number.mantissa budget := by
  obtain ⟨integral, hvalue⟩ := h.scan budget
  rw [hscan] at hvalue
  split_ifs at hvalue
  all_goals
    cases hvalue
    rfl

/-! ## Sizes -/

theorem DigitRun.length_le (h : DigitRun separator run digits) : digits.length ≤ run.length := by
  induction h with
  | last hd => exact Nat.le_refl _
  | digit hd later ih => exact Nat.succ_le_succ ih
  | separated hd hs later ih => exact Nat.succ_le_succ (Nat.le_succ_of_le ih)

theorem IntegerPart.length_le (h : IntegerPart separator text digits rest) :
    digits.length + rest.length ≤ text.length := by
  cases h with
  | absent he => simp
  | digits hr he =>
    have := hr.length_le
    rw [List.length_append]
    omega
  | preceded hm hr he =>
    have := hr.length_le
    rw [List.length_cons, List.length_append]
    omega

theorem IntegerPart.le_nine (h : IntegerPart separator text digits rest) :
    ∀ digit ∈ digits, digit ≤ 9 := by
  cases h with
  | absent he => simp
  | digits hr he | preceded hm hr he => exact hr.le_nine

theorem FractionPart.length_le (h : FractionPart point text digits rest) :
    digits.length + rest.length ≤ text.length := by
  cases h with
  | absent hnext => simp
  | digits hd he =>
    rw [List.length_cons, List.length_append, List.length_map]
    omega

theorem FractionPart.le_nine (h : FractionPart point text digits rest) :
    ∀ digit ∈ digits, digit ≤ 9 := by
  cases h with
  | absent hnext => simp
  | digits hd he =>
    intro digit hm
    obtain ⟨byte, hbyte, rfl⟩ := List.mem_map.1 hm
    exact digitValue_le_nine (hd byte hbyte)

theorem Front.length_le (h : Front field negative rest) : rest.length ≤ field.length := by
  obtain ⟨hb, hs, hnext⟩ := h
  rw [List.length_append, List.length_append]
  omega

namespace Reads

variable {number : Decimal}

theorem length_le (h : Reads marks field number rest) :
    number.integer.length + number.fraction.length ≤ field.length := by
  obtain ⟨hfront, hinteger, hfraction, hexponent⟩ := h
  have := hfront.length_le
  have := hinteger.length_le
  have := hfraction.length_le
  omega

theorem le_nine (h : Reads marks field number rest) : ∀ digit ∈ number.allDigits, digit ≤ 9 := by
  obtain ⟨hfront, hinteger, hfraction, hexponent⟩ := h
  exact List.forall_mem_append.2 ⟨hinteger.le_nine, hfraction.le_nine⟩

end Reads

end TypedTable.Numeral
