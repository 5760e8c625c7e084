import Mathlib.Data.List.DropRight
import Mathlib.Data.List.TakeWhile
import TypedTable.Numeral.Integer
import TypedTable.Proofs.Text.Decoding

/-!
# Integers are read as they are written

The guards before each digit refuse a number just if it leaves the bounds. Blanks around a number
make no difference, and only ASCII bytes belong to one.
-/

set_option autoImplicit false

namespace TypedTable

namespace Text

theorem skipBlanks_append_blanks (text : List UInt8) {blanks : List UInt8}
    (hb : ∀ byte ∈ blanks, isBlank byte = true) :
    (skipBlanks text = [] ∧ skipBlanks (text ++ blanks) = []) ∨
      (skipBlanks text ≠ [] ∧ skipBlanks (text ++ blanks) = skipBlanks text ++ blanks) := by
  rw [skipBlanks, skipBlanks, List.dropWhile_append]
  by_cases hnil : text.dropWhile isBlank = []
  · left
    rw [hnil, if_pos (by rfl)]
    exact ⟨rfl, List.dropWhile_eq_nil_iff.2 hb⟩
  · right
    rw [if_neg (by simpa using hnil)]
    exact ⟨hnil, rfl⟩

theorem trimEnd_append_blanks (text : List UInt8) :
    ∃ blanks, (∀ byte ∈ blanks, isBlank byte = true) ∧
      text = trimEnd isBlank text ++ blanks := by
  refine ⟨(text.reverse.takeWhile isBlank).reverse, fun byte hbyte => ?_, ?_⟩
  · exact List.mem_takeWhile_imp (List.mem_reverse.1 hbyte)
  · rw [trimEnd, ← List.reverse_append, List.takeWhile_append_dropWhile, List.reverse_reverse]

end Text

namespace Numeral

open Text

variable {separator : Option UInt8} {text blanks : List UInt8}

theorem isBlank_iff {byte : UInt8} :
    isBlank byte = true ↔ byte.toNat = 32 ∨ 9 ≤ byte.toNat ∧ byte.toNat ≤ 13 := by
  simp [isBlank, UInt8.le_iff_toNat_le, ← UInt8.toNat_inj]

theorem isDigit_iff {byte : UInt8} : isDigit byte = true ↔ 48 ≤ byte.toNat ∧ byte.toNat ≤ 57 := by
  simp [isDigit, UInt8.le_iff_toNat_le]

theorem not_isDigit_of_isBlank {byte : UInt8} (h : isBlank byte = true) : isDigit byte = false := by
  rw [Bool.eq_false_iff, ne_eq, isDigit_iff]
  have hblank := isBlank_iff.1 h
  omega

theorem startsWithDigit_append_blanks (hb : ∀ byte ∈ blanks, isBlank byte = true) :
    startsWithDigit (text ++ blanks) = startsWithDigit text := by
  cases text with
  | nil =>
    cases blanks with
    | nil => rfl
    | cons byte later => exact not_isDigit_of_isBlank (hb byte (by simp))
  | cons byte rest => rfl

theorem groupedRun_append_blanks (hb : ∀ byte ∈ blanks, isBlank byte = true) :
    groupedRun separator (text ++ blanks) =
      ((groupedRun separator text).1, (groupedRun separator text).2 ++ blanks) := by
  induction text with
  | nil =>
    cases blanks with
    | nil => rfl
    | cons byte later =>
      have hbyte := not_isDigit_of_isBlank (hb byte (by simp))
      have hlater : startsWithDigit later = false :=
        show startsWithDigit ([] ++ later) = startsWithDigit [] from
          startsWithDigit_append_blanks fun b h => hb b (by simp [h])
      simp [groupedRun, hbyte, hlater]
  | cons byte rest ih =>
    rw [List.cons_append, groupedRun, groupedRun, ih, startsWithDigit_append_blanks hb]
    by_cases hdigit : isDigit byte = true
    · rw [if_pos hdigit, if_pos hdigit]
    · rw [if_neg hdigit, if_neg hdigit]
      by_cases hsep : separator = some byte ∧ startsWithDigit rest = true
      · rw [if_pos hsep, if_pos hsep]
      · rw [if_neg hsep, if_neg hsep]
        rfl

theorem checkEnd_append_blanks (hb : ∀ byte ∈ blanks, isBlank byte = true) (value : Int) :
    checkEnd (text ++ blanks) value = checkEnd text value := by
  rw [checkEnd, checkEnd]
  rcases skipBlanks_append_blanks text hb with ⟨hnil, hboth⟩ | ⟨hne, hboth⟩
  · rw [hnil, hboth]
  · rw [hboth]
    simp [hne]

theorem accumulate_append_blanks (step : Int → Nat → Option Int)
    (hb : ∀ byte ∈ blanks, isBlank byte = true) :
    accumulate separator step (text ++ blanks) = accumulate separator step text := by
  rw [accumulate, accumulate, startsWithDigit_append_blanks hb, groupedRun_append_blanks hb]
  simp only [checkEnd_append_blanks hb]

theorem takeSign_of_ne {byte : UInt8} {rest : List UInt8} (hminus : byte ≠ 45) (hplus : byte ≠ 43) :
    takeSign (byte :: rest) = (false, byte :: rest) := by
  simp [takeSign, hminus, hplus]

theorem takeSign_append {head : UInt8} {rest more : List UInt8} :
    takeSign (head :: rest ++ more) =
      ((takeSign (head :: rest)).1, (takeSign (head :: rest)).2 ++ more) := by
  rw [List.cons_append]
  by_cases hminus : head = 45
  · subst hminus
    rfl
  by_cases hplus : head = 43
  · subst hplus
    rfl
  · rw [takeSign_of_ne hminus hplus, takeSign_of_ne hminus hplus, List.cons_append]

theorem parseSigned_append_blanks (min max : Int) (hb : ∀ byte ∈ blanks, isBlank byte = true) :
    parseSigned separator min max (text ++ blanks) = parseSigned separator min max text := by
  rw [parseSigned, parseSigned]
  rcases skipBlanks_append_blanks text hb with ⟨hnil, hboth⟩ | ⟨hne, hboth⟩
  · rw [hnil, hboth]
  · rw [hboth]
    cases hskipped : skipBlanks text with
    | nil => exact absurd hskipped hne
    | cons head rest =>
      simp only [takeSign_append, accumulate_append_blanks _ hb]

theorem parseSigned_skipBlanks (min max : Int) :
    parseSigned separator min max (skipBlanks text) = parseSigned separator min max text := by
  have hagain : skipBlanks (skipBlanks text) = skipBlanks text :=
    List.dropWhile_idempotent isBlank text
  rw [parseSigned, parseSigned, hagain]

/-! ## ASCII -/

theorem lt_of_isBlank {byte : UInt8} (h : isBlank byte = true) : byte < 128 := by
  have hblank := isBlank_iff.1 h
  rw [UInt8.lt_iff_toNat_lt]
  exact Nat.lt_of_le_of_lt (m := 32) (by omega) (by decide)

theorem lt_of_isDigit {byte : UInt8} (h : isDigit byte = true) : byte < 128 := by
  rw [UInt8.lt_iff_toNat_lt]
  exact Nat.lt_of_le_of_lt (isDigit_iff.1 h).2 (by decide)

theorem ascii_of_skipBlanks (h : ∀ byte ∈ skipBlanks text, byte < 128) :
    ∀ byte ∈ text, byte < 128 := by
  intro byte hbyte
  rw [← List.takeWhile_append_dropWhile (p := isBlank) (l := text)] at hbyte
  rcases List.mem_append.1 hbyte with hbyte | hbyte
  · exact lt_of_isBlank (List.mem_takeWhile_imp hbyte)
  · exact h byte hbyte

theorem ascii_of_groupedRun (hs : ∀ byte, separator = some byte → byte < 128)
    (h : ∀ byte ∈ (groupedRun separator text).2, byte < 128) : ∀ byte ∈ text, byte < 128 := by
  induction text with
  | nil => simp
  | cons head rest ih =>
    rw [groupedRun] at h
    intro byte hbyte
    by_cases hdigit : isDigit head = true
    · rw [if_pos hdigit] at h
      rcases List.mem_cons.1 hbyte with rfl | hbyte
      · exact lt_of_isDigit hdigit
      · exact ih h byte hbyte
    · rw [if_neg hdigit] at h
      by_cases hsep : separator = some head ∧ startsWithDigit rest = true
      · rw [if_pos hsep] at h
        rcases List.mem_cons.1 hbyte with rfl | hbyte
        · exact hs byte hsep.1
        · exact ih h byte hbyte
      · rw [if_neg hsep] at h
        exact h byte hbyte

theorem ascii_of_accumulate {step : Int → Nat → Option Int} {value : Int}
    (hs : ∀ byte, separator = some byte → byte < 128)
    (h : accumulate separator step text = .ok value) : ∀ byte ∈ text, byte < 128 := by
  rw [accumulate] at h
  split at h
  · dsimp only at h
    split at h
    · apply ascii_of_groupedRun hs
      rw [checkEnd] at h
      split at h
      next hend =>
        apply ascii_of_skipBlanks
        simp [List.isEmpty_iff.1 hend]
      next => cases h
    · cases h
  · cases h

/-- A number is made of ASCII bytes if the separator is one. -/
theorem ascii_of_parseSigned {min max value : Int}
    (hs : ∀ byte, separator = some byte → byte < 128)
    (h : parseSigned separator min max text = .ok value) : ∀ byte ∈ text, byte < 128 := by
  apply ascii_of_skipBlanks
  have hrest := ascii_of_accumulate hs h
  generalize skipBlanks text = skipped at hrest
  intro byte hbyte
  cases skipped with
  | nil => cases hbyte
  | cons head rest =>
    by_cases hminus : head = 45
    · subst hminus
      rcases List.mem_cons.1 hbyte with rfl | hbyte
      · decide
      · exact hrest byte hbyte
    by_cases hplus : head = 43
    · subst hplus
      rcases List.mem_cons.1 hbyte with rfl | hbyte
      · decide
      · exact hrest byte hbyte
    · rw [takeSign_of_ne hminus hplus] at hrest
      exact hrest byte hbyte

/-! ## Decimal form -/

/-- The guard before a digit lets it pass just if the number stays within the bound. -/
theorem raise_eq {max number : Int} {digit : Nat} (hmax : 0 ≤ max) (hdigit : digit ≤ 9) :
    raise max number digit =
      if number * 10 + digit ≤ max then some (number * 10 + digit) else none := by
  rw [raise, Int.tdiv_eq_ediv_of_nonneg hmax, Int.tmod_eq_emod_of_nonneg hmax]
  congr 1
  rw [eq_iff_iff]
  omega

theorem lower_eq {min number : Int} {digit : Nat} (hmin : min ≤ 0) (hdigit : digit ≤ 9) :
    lower min number digit =
      if min ≤ number * 10 - digit then some (number * 10 - digit) else none := by
  obtain ⟨size, rfl⟩ : ∃ size, min = -size := ⟨-min, by omega⟩
  have hsize : 0 ≤ size := by omega
  rw [lower, Int.neg_tdiv, Int.neg_tmod, Int.tdiv_eq_ediv_of_nonneg hsize,
    Int.tmod_eq_emod_of_nonneg hsize]
  congr 1
  rw [eq_iff_iff]
  omega

def appendDigits (number : Nat) (digits : List Nat) : Nat :=
  digits.foldl (fun n d => n * 10 + d) number

theorem le_appendDigits (number : Nat) (digits : List Nat) :
    number ≤ appendDigits number digits := by
  induction digits generalizing number with
  | nil => exact Nat.le_refl _
  | cons digit rest ih =>
    exact Nat.le_trans (by omega) (ih (number * 10 + digit))

def digitBytes (number : Nat) : List UInt8 :=
  (Nat.toDigits 10 number).map fun c => UInt8.ofNat c.toNat

theorem toNat_of_isDigit {c : Char} (h : c.isDigit = true) : 48 ≤ c.toNat ∧ c.toNat ≤ 57 := by
  simpa [Char.isDigit, UInt32.le_iff_toNat_le] using h

theorem isDigit_of_mem_digitBytes {number : Nat} {byte : UInt8} (h : byte ∈ digitBytes number) :
    isDigit byte = true := by
  obtain ⟨c, hc, rfl⟩ := List.mem_map.1 h
  have hdigit := toNat_of_isDigit (Nat.isDigit_of_mem_toDigits (by decide) (by decide) hc)
  rw [isDigit_iff, UInt8.toNat_ofNat']
  omega

theorem digitBytes_ne_nil (number : Nat) : digitBytes number ≠ [] := by
  simp [digitBytes, Nat.toDigits_ne_nil]

theorem ofDigits_toDigits (number : Nat) :
    ofDigits ((Nat.toDigits 10 number).map fun c => c.toNat - 48) = number := by
  have hdigits := Nat.ofDigitChars_toDigits (b := 10) (n := number) (by decide) (by decide)
  rw [Nat.ofDigitChars] at hdigits
  simp only [Nat.mul_comm 10] at hdigits
  rw [ofDigits, List.foldl_map]
  exact hdigits

theorem appendDigits_digitBytes (number : Nat) :
    appendDigits 0 ((digitBytes number).map digitValue) = number := by
  have hvalue (c : Char) (hc : c ∈ Nat.toDigits 10 number) :
      (digitValue ∘ fun c => UInt8.ofNat c.toNat) c = c.toNat - 48 := by
    have hdigit := toNat_of_isDigit (Nat.isDigit_of_mem_toDigits (by decide) (by decide) hc)
    rw [Function.comp_apply, digitValue, UInt8.toNat_ofNat']
    omega
  rw [digitBytes, List.map_map, List.map_congr_left hvalue]
  exact ofDigits_toDigits number

theorem encode_digits (number : Nat) :
    number.repr.toList.flatMap String.utf8EncodeChar = digitBytes number := by
  have hchar (c : Char) (hc : c ∈ Nat.toDigits 10 number) :
      String.utf8EncodeChar c = [UInt8.ofNat c.toNat] := by
    have hdigit := toNat_of_isDigit (Nat.isDigit_of_mem_toDigits (by decide) (by decide) hc)
    exact encode_of_ascii (by omega)
  rw [Nat.repr, String.toList_ofList, digitBytes, List.flatMap_def, List.map_congr_left hchar,
    ← List.flatMap_def, List.map_eq_flatMap]

theorem bytes_toString (number : Int) :
    (toString number).toUTF8.toList =
      if number < 0 then 45 :: digitBytes number.natAbs else digitBytes number.natAbs := by
  rw [toList_toUTF8]
  cases number with
  | ofNat n =>
    rw [if_neg (by simp)]
    exact encode_digits n
  | negSucc n =>
    have htext : toString (Int.negSucc n) = "-" ++ (n + 1).repr := rfl
    have hminus : "-".toList.flatMap String.utf8EncodeChar = [45] := by decide
    rw [if_pos (Int.negSucc_lt_zero n), htext, String.toList_append,
      List.flatMap_append, hminus, encode_digits]
    rfl

end Numeral

end TypedTable
