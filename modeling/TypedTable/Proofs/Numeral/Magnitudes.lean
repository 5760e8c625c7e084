import Mathlib.Tactic.Linarith
import TypedTable.Numeral.Scaling

/-!
# How large accumulated numbers become

An operation on numbers of a binary format makes them larger by no more than a few bits, however it
is rounded. That is a coarse bound, but a number of few digits keeps far below infinity by it.
-/

set_option autoImplicit false

namespace TypedTable.Numeral

open Float.Model Float.Model.UnpackedFloat

variable {spec : Format} {size larger exponent other : Int} {mantissa factor : Nat}

/-- The mantissa times this power of two is less than two to the power of the size. -/
def Below (size : Int) (mantissa : Nat) (exponent : Int) : Prop :=
  mantissa < 2 ^ (size - exponent).toNat

namespace Below

instance (size : Int) (mantissa : Nat) (exponent : Int) :
    Decidable (Below size mantissa exponent) :=
  inferInstanceAs (Decidable (_ < _))

theorem mono (h : Below size mantissa exponent) (hle : size ≤ larger) :
    Below larger mantissa exponent :=
  Nat.lt_of_lt_of_le h (Nat.pow_le_pow_right (by decide) (by omega))

theorem exponent_lt (h : Below size mantissa exponent) (hm : 0 < mantissa) : exponent < size := by
  by_contra hle
  have hnone : (size - exponent).toNat = 0 := by omega
  rw [Below, hnone, Nat.pow_zero] at h
  omega

theorem log2_lt (h : Below size mantissa exponent) (hm : 0 < mantissa) :
    (mantissa.log2 : Int) < size - exponent := by
  have hlog := (Nat.log2_lt hm.ne').2 h
  have hlt := h.exponent_lt hm
  omega

theorem shiftLeft (h : Below size mantissa exponent) (count : Nat) :
    Below size (mantissa <<< count) (exponent - count) := by
  rcases Nat.eq_zero_or_pos mantissa with rfl | hm
  · rw [Nat.zero_shiftLeft]
    exact Nat.two_pow_pos _
  · have hlt := h.exponent_lt hm
    have hcount : (size - (exponent - count)).toNat = (size - exponent).toNat + count := by omega
    rw [Below, Nat.shiftLeft_eq, hcount, Nat.pow_add]
    exact Nat.mul_lt_mul_of_pos_right h (Nat.two_pow_pos count)

theorem div_two_pow (h : Below size mantissa exponent) (count : Nat) :
    Below size (mantissa / 2 ^ count) (exponent + count) := by
  rw [Below, Nat.div_lt_iff_lt_mul (Nat.two_pow_pos count), ← Nat.pow_add]
  exact Nat.lt_of_lt_of_le h (Nat.pow_le_pow_right (by decide) (by omega))

theorem mul (h : Below size mantissa exponent) (hfactor : Below larger factor other) :
    Below (size + larger) (mantissa * factor) (exponent + other) := by
  rcases Nat.eq_zero_or_pos mantissa with rfl | hm
  · rw [Nat.zero_mul]
    exact Nat.two_pow_pos _
  rcases Nat.eq_zero_or_pos factor with rfl | hf
  · exact Nat.two_pow_pos _
  have hlt := h.exponent_lt hm
  have hlt' := hfactor.exponent_lt hf
  have hsum : (size + larger - (exponent + other)).toNat =
      (size - exponent).toNat + (larger - other).toNat := by omega
  rw [Below, hsum, Nat.pow_add]
  exact Nat.mul_lt_mul'' h hfactor

/-- One more unit in the last place, which may be the carry of a rounding or another number. -/
theorem add (h : Below size mantissa exponent) (hother : Below size factor exponent)
    (hle : exponent ≤ size) : Below (size + 1) (mantissa + factor) exponent := by
  have hdouble : (size + 1 - exponent).toNat = (size - exponent).toNat + 1 := by omega
  rw [Below] at h hother
  rw [Below, hdouble, Nat.pow_succ]
  omega

theorem succ (h : Below size mantissa exponent) (hle : exponent ≤ size) :
    Below (size + 1) (mantissa + 1) exponent := by
  have hdouble : (size + 1 - exponent).toNat = (size - exponent).toNat + 1 := by omega
  have hpos := Nat.two_pow_pos (size - exponent).toNat
  rw [Below] at h
  rw [Below, hdouble, Nat.pow_succ]
  omega

theorem of_le (h : Below size mantissa exponent) (hle : factor ≤ mantissa) :
    Below size factor exponent :=
  Nat.lt_of_le_of_lt hle h

end Below

def SmallUnpacked (size : Int) : UnpackedFloat → Prop
  | .zero _ => True
  | .finite _ mantissa exponent _ => Below size mantissa exponent
  | _ => False

instance (size : Int) : (x : UnpackedFloat) → Decidable (SmallUnpacked size x)
  | .zero _ => .isTrue trivial
  | .finite _ mantissa exponent _ => inferInstanceAs (Decidable (Below size mantissa exponent))
  | .infinity _ => .isFalse id
  | .notANumber => .isFalse id

section Rounding

theorem mantissa_shiftRight (extended : ExtendedMantissa) (count : Nat) :
    (extended >>> count).mantissa = extended.mantissa / 2 ^ count := by
  induction count with
  | zero => exact (Nat.div_one _).symm
  | succ count ih =>
    show (extended >>> count).mantissa / 2 = _
    rw [ih, Nat.div_div_eq_div_mul, Nat.pow_succ]

theorem roundedMantissa_le (extended : ExtendedMantissa) :
    extended.roundedMantissa ≤ extended.mantissa + 1 := by
  rcases extended with ⟨mantissa, round, sticky⟩
  cases round <;> cases sticky <;>
    simp only [ExtendedMantissa.roundedMantissa, ExtendedMantissa.accuracy,
      Accuracy.roundToNearestEven] <;> omega

theorem mantissa_ofMantissaAndAccuracy (mantissa : Nat) (accuracy : Accuracy) :
    (ExtendedMantissa.ofMantissaAndAccuracy mantissa accuracy).mantissa = mantissa := by
  cases accuracy with
  | exact => rfl
  | inexact order => cases order <;> rfl

theorem Below.shiftToTarget (spec : Format) (h : Below size mantissa exponent)
    (accuracy : Accuracy) :
    Below size (shiftToTargetExponent spec mantissa exponent accuracy).1.mantissa
      (shiftToTargetExponent spec mantissa exponent accuracy).2 := by
  simp only [shiftToTargetExponent, shiftToExponent]
  rw [mantissa_shiftRight, mantissa_ofMantissaAndAccuracy]
  exact h.div_two_pow _

theorem exponent_shiftToTarget_le (h : Below size mantissa exponent) (hm : 0 < mantissa)
    (hmin : spec.minExponent ≤ size) (accuracy : Accuracy) :
    (shiftToTargetExponent spec mantissa exponent accuracy).2 ≤ size := by
  have hlt := h.exponent_lt hm
  have hlog := h.log2_lt hm
  simp only [shiftToTargetExponent, shiftToExponent, Format.targetExponent, totalExponent]
  omega

namespace SmallUnpacked

variable {x y : UnpackedFloat}

theorem mono (h : SmallUnpacked size x) (hle : size ≤ larger) : SmallUnpacked larger x := by
  cases x with
  | zero sign => trivial
  | finite sign mantissa exponent hm => exact Below.mono h hle
  | infinity sign | notANumber => exact h

theorem roundWithAccuracy (h : Below size mantissa exponent) (hm : 0 < mantissa)
    (hmin : spec.minExponent ≤ size) (sign : Sign) (accuracy : Accuracy) :
    SmallUnpacked (size + 1)
      (UnpackedFloat.roundWithAccuracy spec sign mantissa exponent accuracy) := by
  have hshift := h.shiftToTarget spec accuracy
  have hexponent := exponent_shiftToTarget_le h hm hmin accuracy
  have hrounded := (hshift.succ hexponent).of_le (roundedMantissa_le _)
  have hfinal := hrounded.shiftToTarget spec .exact
  unfold UnpackedFloat.roundWithAccuracy
  dsimp only
  by_cases hzero : (shiftToTargetExponent spec
      (shiftToTargetExponent spec mantissa exponent accuracy).1.roundedMantissa
      (shiftToTargetExponent spec mantissa exponent accuracy).2 .exact).1.mantissa = 0
  · rw [dif_pos hzero]
    trivial
  · rw [dif_neg hzero]
    exact hfinal

theorem round (h : Below size mantissa exponent) (hm : 0 < mantissa)
    (hmin : spec.minExponent ≤ size) (sign : Sign) :
    SmallUnpacked (size + 1) (UnpackedFloat.round spec sign mantissa exponent) := by
  refine roundWithAccuracy (h.shiftLeft _) ?_ hmin sign .exact
  rw [Nat.shiftLeft_eq]
  exact Nat.mul_pos hm (Nat.two_pow_pos _)

theorem normalize {number : Int} (h : Below size number.natAbs exponent)
    (hmin : spec.minExponent ≤ size) (sign : Sign) :
    SmallUnpacked (size + 1) (UnpackedFloat.normalize spec number exponent sign) := by
  unfold UnpackedFloat.normalize
  split
  next hlt =>
    have hneg := Int.compare_eq_lt.1 hlt
    have hvalue : (-number).toNat = number.natAbs := by omega
    rw [hvalue]
    exact round h (by omega) hmin _
  next => trivial
  next hgt =>
    have hpos := Int.compare_eq_gt.1 hgt
    have hvalue : number.toNat = number.natAbs := by omega
    rw [hvalue]
    exact round h (by omega) hmin _

theorem mul (hx : SmallUnpacked size x) (hy : SmallUnpacked larger y)
    (hmin : spec.minExponent ≤ size + larger) :
    SmallUnpacked (size + larger + 1) (UnpackedFloat.mul spec x y) := by
  cases x with
  | infinity sign | notANumber => exact hx.elim
  | zero sign =>
    cases y with
    | infinity sign | notANumber => exact hy.elim
    | zero sign | finite sign mantissa exponent hm => trivial
  | finite sign mantissa exponent hm =>
    cases y with
    | infinity sign | notANumber => exact hy.elim
    | zero sign => trivial
    | finite sign factor other hf =>
      exact roundWithAccuracy (Below.mul hx hy) (Nat.mul_pos hm hf) hmin _ _

theorem natAbs_apply (sign : Sign) (number : Nat) : (sign.apply number).natAbs = number := by
  cases sign <;> simp [Sign.apply]

theorem add (hx : SmallUnpacked size x) (hy : SmallUnpacked size y)
    (hmin : spec.minExponent ≤ size) :
    SmallUnpacked (size + 2) (UnpackedFloat.add spec x y) := by
  cases x with
  | infinity sign | notANumber => exact hx.elim
  | zero sign =>
    cases y with
    | infinity sign | notANumber => exact hy.elim
    | zero sign' =>
      show SmallUnpacked _ (if sign == sign' then .zero sign else .zero .positive)
      cases sign == sign' <;> trivial
    | finite sign mantissa exponent hm => exact Below.mono hy (by omega)
  | finite sign mantissa exponent hm =>
    cases y with
    | infinity sign | notANumber => exact hy.elim
    | zero sign => exact Below.mono hx (by omega)
    | finite sign' factor other hf =>
      -- Both are brought to the smaller exponent, which is one of the two.
      have hleft := Below.shiftLeft hx (exponent - min exponent other).toNat
      have hright := Below.shiftLeft hy (other - min exponent other).toNat
      have hle := Below.exponent_lt hx hm
      have hexponent : exponent - ((exponent - min exponent other).toNat : Int) =
          min exponent other := by omega
      have hother : other - ((other - min exponent other).toNat : Int) = min exponent other := by
        omega
      rw [hexponent] at hleft
      rw [hother] at hright
      have hsum := hleft.add hright (by omega)
      have hmin' : spec.minExponent ≤ size + 1 := by omega
      rw [show size + 2 = size + 1 + 1 by omega]
      refine normalize (hsum.of_le ?_) hmin' _
      refine (Int.natAbs_add_le _ _).trans ?_
      rw [natAbs_apply, natAbs_apply]

end SmallUnpacked

end Rounding

/-! ## Bits -/

section Packing

variable {x : UnpackedFloat}

/-- How large a number is, its exponent bits say, unless they stand for infinity. -/
theorem smallUnpacked_unpack {bits : BitVec spec.numBits} (hfinite : unpackExponent bits ≠ -1#_)
    (hle : ((unpackExponent bits).toNat : Int) + 1 - spec.exponentBias ≤ size) :
    SmallUnpacked size (UnpackedFloat.unpack spec bits) := by
  unfold UnpackedFloat.unpack
  dsimp only
  rw [if_neg hfinite]
  by_cases hzero : unpackExponent bits = 0#_
  · rw [if_pos hzero]
    by_cases hmantissa : unpackMantissa bits = 0#_
    · rw [dif_pos hmantissa]
      trivial
    · rw [dif_neg hmantissa]
      refine Nat.lt_of_lt_of_le (BitVec.isLt _) (Nat.pow_le_pow_right (by decide) ?_)
      rw [hzero, BitVec.toNat_zero] at hle ⊢
      omega
  · rw [if_neg hzero]
    refine Nat.lt_of_lt_of_le (BitVec.isLt _) (Nat.pow_le_pow_right (by decide) ?_)
    omega

theorem smallUnpacked_packComponents (sign : Sign) {exponentBits : Nat}
    (mantissaBits : BitVec spec.mantissaBitsWithoutImplicit)
    (hfinite : exponentBits + 1 < 2 ^ spec.exponentBits)
    (hle : (exponentBits : Int) + 1 - spec.exponentBias ≤ size) :
    SmallUnpacked size (UnpackedFloat.unpack spec
      (packComponents spec sign (BitVec.ofNat _ exponentBits) mantissaBits)) := by
  have hbits : (BitVec.ofNat spec.exponentBits exponentBits).toNat = exponentBits :=
    Nat.mod_eq_of_lt (by omega)
  refine smallUnpacked_unpack ?_ ?_
  · rw [unpackExponent_packComponents, BitVec.neg_one_eq_allOnes, ← BitVec.lt_allOnes_iff,
      BitVec.lt_def, BitVec.toNat_allOnes, hbits]
    omega
  · rwa [unpackExponent_packComponents, hbits]

theorem pack_finite (spec : Format) (sign : Sign) (mantissa : Nat) (exponent : Int)
    (hm : 0 < mantissa) :
    UnpackedFloat.pack spec (.finite sign mantissa exponent hm) =
      let biased := (exponent + spec.exponentBias + spec.mantissaBitsWithoutImplicit).toNat
      if 2 ^ spec.exponentBits ≤ biased + 1 then packedInfinity spec sign
      else if mantissa.log2 + 1 = spec.mantissaBits then
        packComponents spec sign (BitVec.ofNat _ biased) (BitVec.ofNat _ mantissa)
      else packComponents spec sign 0#_ (BitVec.ofNat _ mantissa) := rfl

/-- Numbers that are packed stay as small as they are, but for those too close to zero. -/
theorem SmallUnpacked.unpack_pack (h : SmallUnpacked size x)
    (hleast : 1 - (spec.exponentBias : Int) ≤ size)
    (hmost : size + spec.exponentBias + spec.mantissaBitsWithoutImplicit < 2 ^ spec.exponentBits) :
    SmallUnpacked size (UnpackedFloat.unpack spec (UnpackedFloat.pack spec x)) := by
  have hzero : 0 + 1 < 2 ^ spec.exponentBits := Nat.one_lt_two_pow (Nat.ne_of_gt spec.he)
  cases x with
  | infinity sign | notANumber => exact h.elim
  | zero sign => exact smallUnpacked_packComponents sign 0 hzero (by simpa using hleast)
  | finite sign mantissa exponent hm =>
    have hexponent := Below.exponent_lt h hm
    have hlog := Below.log2_lt h hm
    have hcast : ((2 ^ spec.exponentBits : Nat) : Int) = 2 ^ spec.exponentBits := by push_cast; rfl
    have hbits : (exponent + spec.exponentBias + spec.mantissaBitsWithoutImplicit).toNat + 1 <
        2 ^ spec.exponentBits := by omega
    have hwidth : spec.mantissaBits = 1 + spec.mantissaBitsWithoutImplicit := rfl
    rw [pack_finite, if_neg (Nat.not_le.2 hbits)]
    split
    next hnormal => exact smallUnpacked_packComponents sign _ hbits (by omega)
    next => exact smallUnpacked_packComponents sign _ hzero (by simpa using hleast)

end Packing

/-! ## Numbers of a field -/

def Small (size : Int) (x : Float) : Prop := SmallUnpacked size x.toModel.unpack

instance (size : Int) (x : Float) : Decidable (Small size x) :=
  inferInstanceAs (Decidable (SmallUnpacked _ _))

namespace Small

variable {x y : Float}

theorem mono (h : Small size x) (hle : size ≤ larger) : Small larger x := SmallUnpacked.mono h hle

theorem not_isInf (h : Small size x) : x.isInf = false := by
  show x.toModel.unpack.isInf = false
  rw [Small] at h
  cases hx : x.toModel.unpack with
  | infinity sign =>
    rw [hx] at h
    exact h.elim
  | notANumber | zero sign | finite sign mantissa exponent hm => rfl

theorem of_unpacked {u : UnpackedFloat} (h : SmallUnpacked size u) (hleast : 0 ≤ size)
    (hmost : size < 970) : Small size (.ofModel (Float.Model.pack u)) := by
  refine SmallUnpacked.unpack_pack h ?_ ?_
  · rw [show Format.binary64.exponentBias = 1023 by decide]
    omega
  · rw [show Format.binary64.exponentBias = 1023 by decide]
    norm_num
    omega

theorem mul (hx : Small size x) (hy : Small larger y) (hleast : 0 ≤ size + larger)
    (hmost : size + larger < 900) : Small (size + larger + 1) (x * y) := by
  have hmin : Format.binary64.minExponent ≤ size + larger := by
    rw [show Format.binary64.minExponent = -1074 by decide]
    omega
  exact of_unpacked (SmallUnpacked.mul hx hy hmin) (by omega) (by omega)

theorem add (hx : Small size x) (hy : Small size y) (hleast : 0 ≤ size) (hmost : size < 900) :
    Small (size + 2) (x + y) := by
  have hmin : Format.binary64.minExponent ≤ size := by
    rw [show Format.binary64.minExponent = -1074 by decide]
    omega
  exact of_unpacked (SmallUnpacked.add hx hy hmin) (by omega) (by omega)

theorem ofNat_digit {digit : Nat} (hd : digit ≤ 10) : Small 4 (Float.ofNat digit) := by
  have hall : ∀ digit ≤ 10, Small 4 (Float.ofNat digit) := by decide +kernel
  exact hall digit hd

theorem power_of_le {power : Nat} (hp : power ≤ 18) :
    Small 60 (Float.ofScientific 1 false power) := by
  have hall : ∀ power ≤ 18, Small 60 (Float.ofScientific 1 false power) := by decide +kernel
  exact hall power hp

theorem foldl_addDigit {digits : List Nat} (hd : ∀ digit ∈ digits, digit ≤ 9) (hx : Small size x)
    (hleast : 0 ≤ size) (hmost : size + 7 * digits.length < 890) :
    Small (size + 7 * digits.length)
      (digits.foldl (fun n d => n * Float.ofNat 10 + Float.ofNat d) x) := by
  induction digits generalizing size x with
  | nil => simpa using hx
  | cons digit rest ih =>
    rw [List.length_cons, Nat.cast_succ] at hmost ⊢
    have htenfold := hx.mul (ofNat_digit (Nat.le_refl 10)) (by omega) (by omega)
    have hdigit := (ofNat_digit ((hd digit (by simp)).trans (by decide))).mono
      (show 4 ≤ size + 4 + 1 by omega)
    have hnext := htenfold.add hdigit (by omega) (by omega)
    refine (ih (fun d hm => hd d (by simp [hm])) hnext (by omega) (by omega)).mono (by omega)

theorem accumulate {digits : List Nat} (hd : ∀ digit ∈ digits, digit ≤ 9)
    (hlength : digits.length ≤ 17) : Small 123 (FloatFormat.double.accumulate digits) :=
  ((ofNat_digit (Nat.zero_le 10)).foldl_addDigit hd (by decide) (by omega)).mono (by omega)

end Small

/-- What a mantissa keeps of the digits of a number. The digits that are left out only raise the
power of ten. -/
structure Keeps (budget number : Nat) (mantissa : Mantissa) : Prop where
  digits : ∀ digit ∈ mantissa.kept, digit ≤ 9
  length : mantissa.kept.length ≤ budget
  exponent : ∃ power : Nat, mantissa.exponent = power ∧ (mantissa.kept = [] → power = 0) ∧
    (mantissa.kept ≠ [] → 10 ^ power ≤ number)

namespace Keeps

variable {budget number : Nat} {m : Mantissa}

theorem addInteger (h : Keeps budget number m) (hbudget : 0 < budget) {digit : Nat}
    (hd : digit ≤ 9) : Keeps budget (number * 10 + digit) (m.addInteger budget digit) := by
  obtain ⟨power, hpower, hnone, hsome⟩ := h.exponent
  unfold Mantissa.addInteger Mantissa.keep
  split
  next hroom =>
    split
    next hzero =>
      obtain ⟨hempty, rfl⟩ := hzero
      have hkept : m.kept = [] := List.isEmpty_iff.1 hempty
      exact ⟨h.digits, h.length, power, hpower, hnone, fun hne => absurd hkept hne⟩
    next hkeep =>
      refine ⟨?_, ?_, power, hpower, fun hnil => ?_, fun _ => ?_⟩
      · exact List.forall_mem_append.2 ⟨h.digits, by simpa using hd⟩
      · rw [List.length_append, List.length_singleton]
        exact hroom
      · simp at hnil
      · by_cases hkept : m.kept = []
        · have hpos : digit ≠ 0 := fun hdigit => hkeep ⟨by rw [hkept]; rfl, hdigit⟩
          rw [hnone hkept, Nat.pow_zero]
          omega
        · have := hsome hkept
          omega
  next hfull =>
    have hkept : m.kept ≠ [] := fun hnil => hfull (by rw [hnil]; exact hbudget)
    refine ⟨h.digits, h.length, power + 1, ?_, fun hnil => absurd hnil hkept, fun _ => ?_⟩
    · show m.exponent + 1 = _
      rw [hpower]
      push_cast
      rfl
    · have := hsome hkept
      rw [Nat.pow_succ]
      omega

theorem ofParts (hbudget : 0 < budget) {digits : List Nat} (hd : ∀ digit ∈ digits, digit ≤ 9) :
    Keeps budget (ofDigits digits) (Mantissa.ofParts budget digits []) := by
  have hrun : ∀ {number : Nat} {m : Mantissa}, Keeps budget number m →
      Keeps budget (digits.foldl (fun n d => n * 10 + d) number)
        (digits.foldl (Mantissa.addInteger budget) m) := by
    induction digits with
    | nil => exact id
    | cons digit rest ih =>
      intro number m h
      exact ih (fun d hm => hd d (by simp [hm])) (h.addInteger hbudget (hd digit (by simp)))
  exact hrun ⟨by simp, by simp, 0, rfl, fun _ => rfl, fun hne => absurd rfl hne⟩

/-- A number of few digits is far from being infinite. -/
theorem exists_magnitude (h : Keeps FloatFormat.double.budget number m)
    (hnumber : number < 10 ^ 19) : ∃ value, FloatFormat.double.magnitude m = some value := by
  obtain ⟨power, hpower, hnone, hsome⟩ := h.exponent
  have hfinite {x : Float} (hx : Small 200 x) :
      (some x).filter (fun v => !FloatFormat.double.isInfinite v) = some x := by
    rw [Option.filter_some, if_pos]
    show (!x.isInf) = true
    rw [hx.not_isInf]
    rfl
  by_cases hkept : m.kept = []
  · have hzero := (Small.ofNat_digit (Nat.zero_le 10)).mono (show 4 ≤ 200 by decide)
    refine ⟨Float.ofNat 0, ?_⟩
    rw [FloatFormat.magnitude, hkept]
    exact hfinite hzero
  · have hle : power ≤ 18 := by
      by_contra hlarge
      have hpow := Nat.pow_le_pow_right (show 0 < 10 by decide) (show 19 ≤ power by omega)
      have := hsome hkept
      omega
    have hscaling : Scaling.ofExponent FloatFormat.double.mostPower m.exponent =
        .multiply power := by
      rw [hpower, Scaling.ofExponent, if_neg, if_pos (Int.natCast_nonneg _), Int.toNat_natCast]
      show ¬ (308 : Int) < power
      omega
    have hvalue := (Small.accumulate h.digits h.length).mul (Small.power_of_le hle) (by decide)
      (by decide)
    refine ⟨FloatFormat.double.accumulate m.kept * Float.ofScientific 1 false power, ?_⟩
    rw [FloatFormat.magnitude, if_neg (by simpa using hkept), hscaling]
    exact hfinite (hvalue.mono (by decide))

end Keeps

end TypedTable.Numeral
