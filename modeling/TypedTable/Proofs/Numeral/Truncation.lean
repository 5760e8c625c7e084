import Mathlib.Algebra.Order.Field.Basic
import Mathlib.Algebra.Order.Field.Rat
import Mathlib.Tactic.Ring
import TypedTable.Proofs.Numeral.Decimals

/-!
# What a scan keeps of a number

After any digits the mantissa holds the first significant ones up to its budget, and its exponent is
the number of significant digits beyond the budget less the number of places behind the point. So
what is lost is less than one unit of the last digit that was kept.
-/

set_option autoImplicit false

namespace TypedTable.Numeral

variable {budget places digit : Nat} {digits : List Nat} {m : Mantissa} {number : Decimal}

def significant (digits : List Nat) : List Nat := digits.dropWhile (· == 0)

/-! ## Digits -/

theorem ofDigits_concat (digits : List Nat) (digit : Nat) :
    ofDigits (digits ++ [digit]) = ofDigits digits * 10 + digit := by
  rw [ofDigits, List.foldl_append]
  rfl

theorem ofDigits_append (first later : List Nat) :
    ofDigits (first ++ later) = ofDigits first * 10 ^ later.length + ofDigits later := by
  induction later using List.reverseRecOn with
  | nil => simp [ofDigits]
  | append_singleton later digit ih =>
    rw [← List.append_assoc, ofDigits_concat, ofDigits_concat, ih, List.length_append,
      List.length_singleton]
    ring

theorem ofDigits_lt (hd : ∀ digit ∈ digits, digit ≤ 9) : ofDigits digits < 10 ^ digits.length := by
  induction digits using List.reverseRecOn with
  | nil => exact Nat.one_pos
  | append_singleton first digit ih =>
    have hfirst := ih fun d hm => hd d (by simp [hm])
    have hdigit := hd digit (by simp)
    rw [ofDigits_concat, List.length_append, List.length_singleton, Nat.pow_succ]
    omega

theorem ofDigits_significant (digits : List Nat) :
    ofDigits (significant digits) = ofDigits digits := by
  induction digits with
  | nil => rfl
  | cons digit rest ih =>
    rw [significant, List.dropWhile_cons]
    split_ifs with hzero
    · obtain rfl : digit = 0 := by simpa using hzero
      exact ih
    · rfl

theorem significant_concat (digits : List Nat) (digit : Nat) :
    significant (digits ++ [digit]) =
      if significant digits = [] ∧ digit = 0 then [] else significant digits ++ [digit] := by
  rw [significant, List.dropWhile_append]
  by_cases hnil : significant digits = []
  · rw [if_pos (by rw [← significant, hnil]; rfl), hnil]
    by_cases hzero : digit = 0 <;> simp [hzero]
  · rw [if_neg (by simpa [significant] using hnil), if_neg fun h => hnil h.1]
    rfl

theorem length_significant_le (digits : List Nat) :
    (significant digits).length ≤ digits.length :=
  (List.dropWhile_sublist _).length_le

theorem significant_le_nine (hd : ∀ digit ∈ digits, digit ≤ 9) :
    ∀ digit ∈ significant digits, digit ≤ 9 :=
  fun digit hm => hd digit ((List.dropWhile_sublist _).mem hm)

theorem ofDigits_take_significant (hbudget : 0 < budget)
    (h : ofDigits ((significant digits).take budget) = 0) : significant digits = [] := by
  have hfirst := List.head?_dropWhile_not (· == 0) digits
  rw [← significant] at hfirst
  cases hsplit : significant digits with
  | nil => rfl
  | cons first later =>
    obtain ⟨count, rfl⟩ := Nat.exists_eq_succ_of_ne_zero hbudget.ne'
    rw [hsplit] at h hfirst
    have hpos : first ≠ 0 := by simpa using hfirst
    rw [List.take_succ_cons, ← List.singleton_append, ofDigits_append] at h
    have hpow := Nat.pow_pos (n := (later.take count).length) (show 0 < 10 by decide)
    have hone : ofDigits [first] = first := by simp [ofDigits]
    rw [hone] at h
    have := Nat.mul_pos (Nat.pos_of_ne_zero hpos) hpow
    omega

/-! ## Mantissas -/

namespace Mantissa

structure Holds (budget : Nat) (digits : List Nat) (places : Nat) (m : Mantissa) : Prop where
  kept : m.kept = (significant digits).take budget
  exponent : m.exponent = ((significant digits).length - budget : Nat) - (places : Int)

theorem exponent_keep (m : Mantissa) (digit : Nat) : (m.keep digit).exponent = m.exponent := by
  unfold keep
  split_ifs <;> rfl

namespace Holds

theorem hasRoom_iff (h : Holds budget digits places m) :
    m.kept.length < budget ↔ (significant digits).length < budget := by
  rw [h.kept, List.length_take]
  omega

section Room

variable (h : Holds budget digits places m) (hroom : (significant digits).length < budget)
include h hroom

theorem kept_keep (digit : Nat) :
    (m.keep digit).kept = (significant (digits ++ [digit])).take budget := by
  have hkept : m.kept = significant digits := by
    rw [h.kept, List.take_of_length_le hroom.le]
  have hlength : (significant digits ++ [digit]).length ≤ budget := by
    rw [List.length_append, List.length_singleton]
    exact hroom
  simp only [Mantissa.keep, hkept, significant_concat, List.isEmpty_iff]
  split_ifs with hzero
  · rw [hkept, hzero.1, List.take_nil]
  · exact (List.take_of_length_le hlength).symm

theorem exponent_eq : m.exponent = -(places : Int) := by
  rw [h.exponent]
  omega

omit h in
theorem exceeding_eq_zero (digit : Nat) :
    (significant (digits ++ [digit])).length - budget = 0 := by
  rw [significant_concat]
  split_ifs
  · simp
  · rw [List.length_append, List.length_singleton]
    omega

end Room

theorem significant_full (hbudget : 0 < budget) (hfull : budget ≤ (significant digits).length)
    (digit : Nat) : significant (digits ++ [digit]) = significant digits ++ [digit] := by
  rw [significant_concat, if_neg]
  rintro ⟨hnil, -⟩
  rw [hnil, List.length_nil] at hfull
  omega

theorem kept_full (h : Holds budget digits places m) (hbudget : 0 < budget)
    (hfull : budget ≤ (significant digits).length) (digit : Nat) :
    m.kept = (significant (digits ++ [digit])).take budget := by
  rw [significant_full hbudget hfull, List.take_append_of_le_length hfull]
  exact h.kept

theorem exceeding_full (hbudget : 0 < budget) (hfull : budget ≤ (significant digits).length)
    (digit : Nat) :
    (significant (digits ++ [digit])).length - budget =
      (significant digits).length - budget + 1 := by
  rw [significant_full hbudget hfull, List.length_append, List.length_singleton]
  omega

theorem addInteger (h : Holds budget digits places m) (hbudget : 0 < budget) (digit : Nat) :
    Holds budget (digits ++ [digit]) places (m.addInteger budget digit) := by
  unfold Mantissa.addInteger
  split_ifs with hroom
  · rw [h.hasRoom_iff] at hroom
    refine ⟨h.kept_keep hroom digit, ?_⟩
    rw [exponent_keep, h.exponent_eq hroom, exceeding_eq_zero hroom]
    omega
  · rw [h.hasRoom_iff, Nat.not_lt] at hroom
    refine ⟨h.kept_full hbudget hroom digit, ?_⟩
    show m.exponent + 1 = _
    rw [h.exponent, exceeding_full hbudget hroom]
    omega

theorem addFraction (h : Holds budget digits places m) (hbudget : 0 < budget) (digit : Nat) :
    Holds budget (digits ++ [digit]) (places + 1) (m.addFraction budget digit) := by
  unfold Mantissa.addFraction
  split_ifs with hroom
  · rw [h.hasRoom_iff] at hroom
    refine ⟨h.kept_keep hroom digit, ?_⟩
    show m.exponent - 1 = _
    rw [h.exponent_eq hroom, exceeding_eq_zero hroom]
    omega
  · rw [h.hasRoom_iff, Nat.not_lt] at hroom
    refine ⟨h.kept_full hbudget hroom digit, ?_⟩
    rw [h.exponent, exceeding_full hbudget hroom]
    omega

theorem foldl_addInteger (hbudget : 0 < budget) (integer : List Nat) :
    Holds budget integer 0 (integer.foldl (Mantissa.addInteger budget) {}) := by
  induction integer using List.reverseRecOn with
  | nil => exact ⟨by simp [significant], by simp [significant]⟩
  | append_singleton first digit ih =>
    rw [List.foldl_append]
    exact ih.addInteger hbudget digit

theorem ofParts (hbudget : 0 < budget) (integer fraction : List Nat) :
    Holds budget (integer ++ fraction) fraction.length
      (Mantissa.ofParts budget integer fraction) := by
  induction fraction using List.reverseRecOn with
  | nil => simpa [Mantissa.ofParts] using foldl_addInteger hbudget integer
  | append_singleton first digit ih =>
    rw [Mantissa.ofParts, List.foldl_append, List.length_append, ← List.append_assoc]
    exact ih.addFraction hbudget digit

end Holds

end Mantissa

/-! ## Numbers -/

/-- Up to the last digit that was kept, the kept digits at that exponent are the number. -/
structure Truncates (budget : Nat) (number : Decimal) (kept : List Nat) (exponent : Int) :
    Prop where
  lower : (ofDigits kept : Rat) * 10 ^ exponent ≤ number.magnitude
  upper : number.magnitude < (ofDigits kept + 1 : Rat) * 10 ^ exponent
  /-- Nothing is lost of a number of few digits. -/
  exact : (significant number.allDigits).length ≤ budget →
    (ofDigits kept : Rat) * 10 ^ exponent = number.magnitude
  /-- Nothing but zero is scanned as zero. -/
  zero : ofDigits kept = 0 → number.magnitude = 0

theorem ofDigits_take_bounds (hd : ∀ digit ∈ digits, digit ≤ 9) (count : Nat) :
    ofDigits (digits.take count) * 10 ^ (digits.length - count) ≤ ofDigits digits ∧
      ofDigits digits < (ofDigits (digits.take count) + 1) * 10 ^ (digits.length - count) := by
  have hsplit : ofDigits digits =
      ofDigits (digits.take count) * 10 ^ (digits.length - count) +
        ofDigits (digits.drop count) := by
    rw [← List.length_drop, ← ofDigits_append, List.take_append_drop]
  have hrest := ofDigits_lt fun digit hm => hd digit (List.mem_of_mem_drop (i := count) hm)
  rw [List.length_drop] at hrest
  rw [hsplit, Nat.add_mul, Nat.one_mul]
  omega

namespace Decimal

def keptExponent (budget : Nat) (number : Decimal) : Int :=
  (Mantissa.ofParts budget number.integer number.fraction).exponent + number.exponent

theorem truncates (hbudget : 0 < budget) (hd : ∀ digit ∈ number.allDigits, digit ≤ 9) :
    Truncates budget number (number.mantissa budget).kept (number.keptExponent budget) := by
  have hholds := Mantissa.Holds.ofParts hbudget number.integer number.fraction
  have hbounds := ofDigits_take_bounds (significant_le_nine hd) budget
  have hkept : (number.mantissa budget).kept = (significant number.allDigits).take budget :=
    hholds.kept
  rw [ofDigits_significant, ← hkept] at hbounds
  -- All powers of ten are brought to that of the last digit of the fraction.
  have hscale : (10 : Rat) ^ number.keptExponent budget =
      10 ^ ((significant number.allDigits).length - budget) *
        10 ^ (number.exponent - number.fraction.length) := by
    rw [← zpow_natCast, ← zpow_add₀ (by norm_num), keptExponent, hholds.exponent, allDigits]
    congr 1
    ring
  have hunit : (0 : Rat) < 10 ^ (number.exponent - number.fraction.length) :=
    zpow_pos (by norm_num) _
  refine ⟨?_, ?_, fun hfew => ?_, fun hzero => ?_⟩
  · rw [hscale, ← mul_assoc, magnitude]
    exact mul_le_mul_of_nonneg_right (by exact_mod_cast hbounds.1) hunit.le
  · rw [hscale, ← mul_assoc, magnitude]
    exact mul_lt_mul_of_pos_right (by exact_mod_cast hbounds.2) hunit
  · rw [hscale, Nat.sub_eq_zero_of_le hfew, pow_zero, one_mul, magnitude, hkept,
      List.take_of_length_le hfew, ofDigits_significant]
  · rw [hkept] at hzero
    have hnone := ofDigits_take_significant hbudget hzero
    rw [magnitude, ← ofDigits_significant, hnone]
    exact zero_mul _

end Decimal

end TypedTable.Numeral
