import TypedTable.Proofs.Numeral.Integers

/-!
# The grammar of integers

An integer is written as a sign and digits with blanks around them, and a separator may stand
between two digits. What a text begins with decides between a number and the reasons to refuse it,
and as the bounds have zero between them, a number that fits has only fitting numbers before it.
-/

set_option autoImplicit false

namespace TypedTable.Numeral

open Text

variable {separator : Option UInt8} {field run rest text : List UInt8} {digits : List Nat}
  {negative : Bool} {min max : Int}

/-- Digits and their values; the separator may stand once between two of them. -/
inductive DigitRun (separator : Option UInt8) : List UInt8 → List Nat → Prop
  | last {byte : UInt8} (hd : isDigit byte = true) : DigitRun separator [byte] [digitValue byte]
  | digit {byte : UInt8} {run : List UInt8} {digits : List Nat} (hd : isDigit byte = true)
    (later : DigitRun separator run digits) :
    DigitRun separator (byte :: run) (digitValue byte :: digits)
  | separated {byte mark : UInt8} {run : List UInt8} {digits : List Nat}
    (hd : isDigit byte = true) (hs : separator = some mark)
    (later : DigitRun separator run digits) :
    DigitRun separator (byte :: mark :: run) (digitValue byte :: digits)

structure Ends (separator : Option UInt8) (rest : List UInt8) : Prop where
  digit : startsWithDigit rest = false
  separated : ∀ mark later, rest = mark :: later → separator = some mark →
    startsWithDigit later = false

inductive Sign : List UInt8 → Bool → Prop
  | none : Sign [] false
  | plus : Sign [43] false
  | minus : Sign [45] true

/-- The field begins with blanks, a sign and all of a run of digits, and goes on with `rest`. -/
inductive Leads (separator : Option UInt8) : List UInt8 → Bool → List Nat → List UInt8 → Prop
  | intro {before sign run rest : List UInt8} {negative : Bool} {digits : List Nat}
    (hb : ∀ byte ∈ before, isBlank byte = true) (hs : Sign sign negative)
    (hr : DigitRun separator run digits) (he : Ends separator rest) :
    Leads separator (before ++ (sign ++ (run ++ rest))) negative digits rest

/-- The field is a sign and digits with blanks around them. -/
inductive Written (separator : Option UInt8) : List UInt8 → Bool → List Nat → Prop
  | intro {before sign run after : List UInt8} {negative : Bool} {digits : List Nat}
    (hb : ∀ byte ∈ before, isBlank byte = true) (hs : Sign sign negative)
    (hr : DigitRun separator run digits) (ha : ∀ byte ∈ after, isBlank byte = true) :
    Written separator (before ++ (sign ++ (run ++ after))) negative digits

/-- No digit comes behind the sign, wherever the blanks before it are taken to end. -/
def Unnumbered (field : List UInt8) : Prop :=
  ∀ {before sign rest : List UInt8} {negative : Bool}, (∀ byte ∈ before, isBlank byte = true) →
    Sign sign negative → field = before ++ (sign ++ rest) → startsWithDigit rest = false

def BeginsWithMinus (field : List UInt8) : Prop :=
  ∃ before rest, (∀ byte ∈ before, isBlank byte = true) ∧ field = before ++ 45 :: rest

def signed (negative : Bool) (number : Nat) : Int := if negative then -number else number

theorem digitValue_le_nine {byte : UInt8} (hd : isDigit byte = true) : digitValue byte ≤ 9 := by
  have hrange := isDigit_iff.1 hd
  rw [digitValue]
  omega

namespace DigitRun

theorem startsWithDigit (h : DigitRun separator run digits) (rest : List UInt8) :
    Numeral.startsWithDigit (run ++ rest) = true := by
  cases h with
  | last hd | digit hd later | separated hd hs later => exact hd

theorem le_nine (h : DigitRun separator run digits) : ∀ digit ∈ digits, digit ≤ 9 := by
  induction h with
  | last hd => simpa using digitValue_le_nine hd
  | digit hd later ih | separated hd hs later ih =>
    exact List.forall_mem_cons.2 ⟨digitValue_le_nine hd, ih⟩

theorem of_digits (hd : ∀ byte ∈ run, isDigit byte = true) (hne : run ≠ []) :
    DigitRun separator run (run.map digitValue) := by
  induction run with
  | nil => exact absurd rfl hne
  | cons byte later ih =>
    have hbyte := hd byte (by simp)
    cases later with
    | nil => exact .last hbyte
    | cons next later =>
      exact .digit hbyte (ih (fun byte hm => hd byte (List.mem_cons_of_mem _ hm)) (by simp))

end DigitRun

/-- Blanks end a run, even if one of them is the separator. -/
theorem Ends.of_blanks (h : ∀ byte ∈ rest, isBlank byte = true) : Ends separator rest := by
  have hstart {text : List UInt8} (ht : ∀ byte ∈ text, isBlank byte = true) :
      startsWithDigit text = false :=
    show startsWithDigit ([] ++ text) = startsWithDigit [] from startsWithDigit_append_blanks ht
  refine ⟨hstart h, ?_⟩
  rintro mark later rfl -
  exact hstart fun byte hm => h byte (List.mem_cons_of_mem _ hm)

theorem Ends.groupedRun (h : Ends separator rest) : groupedRun separator rest = ([], rest) := by
  cases rest with
  | nil => rfl
  | cons mark later =>
    have hmark : isDigit mark = false := h.digit
    rw [Numeral.groupedRun, if_neg (by simp [hmark]), if_neg]
    rintro ⟨hs, hlater⟩
    rw [h.separated mark later rfl hs] at hlater
    cases hlater

theorem DigitRun.groupedRun (h : DigitRun separator run digits)
    (ht : ∀ mark, separator = some mark → isDigit mark = false) (he : Ends separator rest) :
    groupedRun separator (run ++ rest) = (digits, rest) := by
  induction h with
  | last hd => rw [List.singleton_append, Numeral.groupedRun, if_pos hd, he.groupedRun]
  | digit hd later ih => rw [List.cons_append, Numeral.groupedRun, if_pos hd, ih]
  | separated hd hs later ih =>
    have hmark := ht _ hs
    rw [List.cons_append, Numeral.groupedRun, if_pos hd, List.cons_append, Numeral.groupedRun,
      if_neg (by simp [hmark]), if_pos ⟨hs, later.startsWithDigit rest⟩, ih]

/-- Whatever begins with a digit begins with a run that ends. -/
theorem exists_run {text : List UInt8} (h : startsWithDigit text = true) :
    ∃ run digits rest, text = run ++ rest ∧ DigitRun separator run digits ∧
      Ends separator rest := by
  match text with
  | [] => cases h
  | byte :: later =>
    have hbyte : isDigit byte = true := h
    by_cases hlater : startsWithDigit later = true
    · obtain ⟨run, digits, rest, hsplit, hrun, hends⟩ := exists_run hlater
      exact ⟨byte :: run, _, rest, by rw [hsplit, List.cons_append], .digit hbyte hrun, hends⟩
    · by_cases hsep : ∃ mark rest, later = mark :: rest ∧ separator = some mark ∧
          startsWithDigit rest = true
      · obtain ⟨mark, behind, rfl, hs, hbehind⟩ := hsep
        obtain ⟨run, digits, rest, hsplit, hrun, hends⟩ := exists_run hbehind
        exact ⟨byte :: mark :: run, _, rest, by rw [hsplit]; rfl, .separated hbyte hs hrun, hends⟩
      · refine ⟨[byte], _, later, rfl, .last hbyte, Bool.eq_false_iff.2 hlater, ?_⟩
        rintro mark rest rfl hs
        exact Bool.eq_false_iff.2 fun hrest => hsep ⟨mark, rest, rfl, hs, hrest⟩
termination_by text.length

theorem skipBlanks_append {before : List UInt8} (hb : ∀ byte ∈ before, isBlank byte = true)
    (hnext : ∀ byte ∈ rest.head?, isBlank byte = false) : skipBlanks (before ++ rest) = rest := by
  rw [skipBlanks, List.dropWhile_append_of_pos hb]
  cases rest with
  | nil => rfl
  | cons byte later => rw [List.dropWhile_cons, if_neg (by simp [hnext byte rfl])]

/-- A text is a sign, which may be missing, and what is left without it. -/
theorem exists_sign (text : List UInt8) :
    ∃ sign, Sign sign (takeSign text).1 ∧ text = sign ++ (takeSign text).2 ∧
      (sign = [] → ∀ byte ∈ text.head?, byte ≠ 43 ∧ byte ≠ 45) := by
  cases text with
  | nil => exact ⟨[], .none, rfl, by simp⟩
  | cons byte later =>
    by_cases hminus : byte = 45
    · subst hminus
      exact ⟨[45], .minus, rfl, by simp⟩
    by_cases hplus : byte = 43
    · subst hplus
      exact ⟨[43], .plus, rfl, by simp⟩
    rw [takeSign_of_ne hminus hplus]
    exact ⟨[], .none, rfl, by simp [hminus, hplus]⟩

theorem Sign.takeSign {sign : List UInt8} (h : Sign sign negative)
    (hr : startsWithDigit rest = true) : takeSign (sign ++ rest) = (negative, rest) := by
  cases h with
  | plus | minus => rfl
  | none =>
    cases rest with
    | nil => cases hr
    | cons byte later =>
      have hrange := isDigit_iff.1 hr
      refine takeSign_of_ne ?_ ?_
      · rintro rfl
        simp at hrange
      · rintro rfl
        simp at hrange

/-- The head of a field: blanks and a sign, which may be missing. -/
theorem exists_head (field : List UInt8) :
    ∃ before sign, (∀ byte ∈ before, isBlank byte = true) ∧
      Sign sign (takeSign (skipBlanks field)).1 ∧
      field = before ++ (sign ++ (takeSign (skipBlanks field)).2) := by
  obtain ⟨sign, hs, hsplit, -⟩ := exists_sign (skipBlanks field)
  refine ⟨field.takeWhile isBlank, sign, fun byte hm => List.mem_takeWhile_imp hm, hs, ?_⟩
  rw [← hsplit]
  exact List.takeWhile_append_dropWhile.symm

theorem takeSign_skipBlanks {before sign rest : List UInt8}
    (hb : ∀ byte ∈ before, isBlank byte = true) (hs : Sign sign negative)
    (hr : startsWithDigit rest = true) :
    takeSign (skipBlanks (before ++ (sign ++ rest))) = (negative, rest) := by
  have hnext : ∀ byte ∈ (sign ++ rest).head?, isBlank byte = false := by
    cases hs with
    | plus | minus => simp [isBlank]
    | none =>
      cases rest with
      | nil => cases hr
      | cons byte later =>
        have hdigit : isDigit byte = true := hr
        have hblank : isBlank byte = false :=
          Bool.eq_false_iff.2 fun h => by simp [not_isDigit_of_isBlank h] at hdigit
        simpa using hblank
  rw [skipBlanks_append hb hnext, hs.takeSign hr]

theorem Leads.takeSign (h : Leads separator field negative digits rest) :
    ∃ run, takeSign (skipBlanks field) = (negative, run ++ rest) ∧
      DigitRun separator run digits ∧ Ends separator rest := by
  cases h with
  | intro hb hs hr he => exact ⟨_, takeSign_skipBlanks hb hs (hr.startsWithDigit _), hr, he⟩

theorem unnumbered_iff :
    Unnumbered field ↔ startsWithDigit (takeSign (skipBlanks field)).2 = false := by
  constructor
  · intro h
    obtain ⟨before, sign, hb, hs, hfield⟩ := exists_head field
    exact h hb hs hfield
  · rintro h before sign rest negative hb hs rfl
    refine Bool.eq_false_iff.2 fun hr => ?_
    rw [takeSign_skipBlanks hb hs hr, hr] at h
    cases h

/-- A field without digits behind its sign is no number, and any other one begins with one. -/
theorem unnumbered_or_leads (separator : Option UInt8) (field : List UInt8) :
    Unnumbered field ∨ ∃ negative digits rest, Leads separator field negative digits rest := by
  rw [unnumbered_iff]
  cases hdigit : startsWithDigit (Numeral.takeSign (skipBlanks field)).2 with
  | false => exact .inl rfl
  | true =>
    obtain ⟨before, sign, hb, hs, hfield⟩ := exists_head field
    obtain ⟨run, digits, rest, hsplit, hr, he⟩ := exists_run hdigit
    rw [hsplit] at hfield
    refine .inr ⟨(Numeral.takeSign (skipBlanks field)).1, digits, rest, ?_⟩
    rw [hfield] at hs ⊢
    exact .intro hb hs hr he

theorem takeSign_minus_iff : (takeSign (skipBlanks field)).1 = true ↔ BeginsWithMinus field := by
  constructor
  · intro hminus
    obtain ⟨before, sign, hb, hs, hfield⟩ := exists_head field
    rw [hminus] at hs
    cases hs
    exact ⟨before, _, hb, hfield⟩
  · rintro ⟨before, rest, hb, rfl⟩
    rw [skipBlanks, List.dropWhile_append_of_pos hb]
    rfl

theorem Leads.beginsWithMinus_iff (h : Leads separator field negative digits rest) :
    BeginsWithMinus field ↔ negative = true := by
  obtain ⟨run, hsign, -, -⟩ := h.takeSign
  rw [← takeSign_minus_iff, hsign]

theorem written_iff :
    Written separator field negative digits ↔
      ∃ rest, Leads separator field negative digits rest ∧
        ∀ byte ∈ rest, isBlank byte = true := by
  constructor
  · rintro ⟨hb, hs, hr, ha⟩
    exact ⟨_, .intro hb hs hr (.of_blanks ha), ha⟩
  · rintro ⟨rest, ⟨hb, hs, hr, -⟩, ha⟩
    exact .intro hb hs hr ha

/-! ## Bounds -/

theorem signed_mul_ten (negative : Bool) (number : Nat) :
    signed negative number * 10 = signed negative (number * 10) := by
  cases negative with
  | true =>
    simp only [signed, if_true]
    omega
  | false =>
    simp only [signed, if_false, Bool.false_eq_true]
    omega

theorem signed_fits_of_le (hmin : min ≤ 0) (hmax : 0 ≤ max) {number greater : Nat}
    (hle : number ≤ greater)
    (h : min ≤ signed negative greater ∧ signed negative greater ≤ max) :
    min ≤ signed negative number ∧ signed negative number ≤ max := by
  cases negative with
  | true =>
    simp only [signed, if_true] at h ⊢
    omega
  | false =>
    simp only [signed, if_false, Bool.false_eq_true] at h ⊢
    omega

def addDigit (min max : Int) (negative : Bool) : Int → Nat → Option Int :=
  if negative then lower min else raise max

theorem addDigit_signed (hmin : min ≤ 0) (hmax : 0 ≤ max) (number : Nat) {digit : Nat}
    (hd : digit ≤ 9) :
    addDigit min max negative (signed negative number) digit =
      if min ≤ signed negative (number * 10 + digit) ∧
          signed negative (number * 10 + digit) ≤ max then
        some (signed negative (number * 10 + digit)) else none := by
  cases negative with
  | true =>
    have hvalue : signed true number * 10 - digit = signed true (number * 10 + digit) := by
      simp only [signed, if_true]
      push_cast
      omega
    have hbelow : signed true (number * 10 + digit) ≤ max := by
      simp only [signed, if_true]
      omega
    simp only [addDigit, if_true, lower_eq hmin hd, hvalue, and_iff_left hbelow]
  | false =>
    have hvalue : signed false number * 10 + digit = signed false (number * 10 + digit) := by
      simp [signed]
    have habove : min ≤ signed false (number * 10 + digit) := by
      simp only [signed, if_false, Bool.false_eq_true]
      omega
    simp only [addDigit, Bool.false_eq_true, if_false, raise_eq hmax hd, hvalue,
      and_iff_right habove]

theorem foldlM_addDigit (hmin : min ≤ 0) (hmax : 0 ≤ max) (hd : ∀ digit ∈ digits, digit ≤ 9)
    (number : Nat) (hn : min ≤ signed negative number ∧ signed negative number ≤ max) :
    digits.foldlM (addDigit min max negative) (signed negative number) =
      if min ≤ signed negative (appendDigits number digits) ∧
          signed negative (appendDigits number digits) ≤ max then
        some (signed negative (appendDigits number digits)) else none := by
  induction digits generalizing number with
  | nil => exact (if_pos hn).symm
  | cons digit rest ih =>
    rw [List.foldlM_cons, addDigit_signed hmin hmax number (hd digit (by simp))]
    split
    next hfits => exact ih (fun d hm => hd d (by simp [hm])) (number * 10 + digit) hfits
    next hout =>
      refine (if_neg fun hfits => hout ?_).symm
      exact signed_fits_of_le hmin hmax (le_appendDigits _ rest) hfits

theorem foldlM_addDigit_zero (hmin : min ≤ 0) (hmax : 0 ≤ max)
    (hd : ∀ digit ∈ digits, digit ≤ 9) :
    digits.foldlM (addDigit min max negative) 0 =
      if min ≤ signed negative (ofDigits digits) ∧ signed negative (ofDigits digits) ≤ max then
        some (signed negative (ofDigits digits)) else none := by
  have hzero : signed negative 0 = 0 := by cases negative <;> rfl
  have hfits : min ≤ signed negative 0 ∧ signed negative 0 ≤ max := by
    rw [hzero]
    exact ⟨hmin, hmax⟩
  have h := foldlM_addDigit hmin hmax hd 0 hfits
  rwa [hzero] at h

theorem groupedRun_le_nine (text : List UInt8) :
    ∀ digit ∈ (groupedRun separator text).1, digit ≤ 9 := by
  induction text with
  | nil => simp [groupedRun]
  | cons byte rest ih =>
    rw [groupedRun]
    split
    next hd => exact List.forall_mem_cons.2 ⟨digitValue_le_nine hd, ih⟩
    next =>
      split
      · exact ih
      · simp

def fieldDigits (separator : Option UInt8) (field : List UInt8) : List Nat :=
  (groupedRun separator (takeSign (skipBlanks field)).2).1

def accumulated (separator : Option UInt8) (min max : Int) (field : List UInt8) (count : Nat) :
    Option Int :=
  ((fieldDigits separator field).take count).foldlM
    (addDigit min max (takeSign (skipBlanks field)).1) 0

section Accumulated

variable {count : Nat} {number : Int}

theorem accumulated_eq_some_iff (hmin : min ≤ 0) (hmax : 0 ≤ max) :
    accumulated separator min max field count = some number ↔
      (min ≤ number ∧ number ≤ max) ∧
        signed (takeSign (skipBlanks field)).1
          (ofDigits ((fieldDigits separator field).take count)) = number := by
  have hd : ∀ digit ∈ (fieldDigits separator field).take count, digit ≤ 9 := fun digit hm =>
    groupedRun_le_nine _ digit (List.mem_of_mem_take hm)
  rw [accumulated, foldlM_addDigit_zero hmin hmax hd]
  constructor
  · intro h
    split at h
    next hfits =>
      obtain rfl := Option.some.inj h
      exact ⟨hfits, rfl⟩
    next => cases h
  · rintro ⟨hfits, rfl⟩
    exact if_pos hfits

/-- Before another digit is added, the tenfold of the number is within the bounds too. -/
theorem tenfold_fits (hmin : min ≤ 0) (hmax : 0 ≤ max) {next : Int}
    (hcount : count < (fieldDigits separator field).length)
    (h : accumulated separator min max field count = some number)
    (hnext : accumulated separator min max field (count + 1) = some next) :
    min ≤ number * 10 ∧ number * 10 ≤ max := by
  obtain ⟨-, rfl⟩ := (accumulated_eq_some_iff hmin hmax).1 h
  obtain ⟨hfits, rfl⟩ := (accumulated_eq_some_iff hmin hmax).1 hnext
  rw [List.take_succ_eq_append_getElem hcount, ofDigits, List.foldl_append] at hfits
  rw [signed_mul_ten]
  exact signed_fits_of_le hmin hmax (Nat.le_add_right _ _) hfits

end Accumulated

/-! ## Reading -/

theorem checkEnd_eq (rest : List UInt8) (value : Int) :
    checkEnd rest value = if rest.all isBlank then .ok value else .error .trailing := by
  rw [checkEnd, skipBlanks]
  congr 1
  rw [List.isEmpty_iff, List.dropWhile_eq_nil_iff, List.all_eq_true]

theorem parseSigned_eq (text : List UInt8) :
    parseSigned separator min max text = accumulate separator
      (addDigit min max (takeSign (skipBlanks text)).1) (takeSign (skipBlanks text)).2 := rfl

/-- A number is refused if it is out of bounds, and then if something else follows it. -/
theorem parseSigned_of_leads (ht : ∀ mark, separator = some mark → isDigit mark = false)
    (hmin : min ≤ 0) (hmax : 0 ≤ max) (h : Leads separator field negative digits rest) :
    parseSigned separator min max field =
      if min ≤ signed negative (ofDigits digits) ∧ signed negative (ofDigits digits) ≤ max then
        if rest.all isBlank then .ok (signed negative (ofDigits digits)) else .error .trailing
      else .error .outOfRange := by
  obtain ⟨run, hsign, hr, he⟩ := h.takeSign
  rw [parseSigned_eq, hsign, accumulate, if_pos (hr.startsWithDigit rest), hr.groupedRun ht he]
  dsimp only
  rw [foldlM_addDigit_zero hmin hmax hr.le_nine]
  by_cases hfits : min ≤ signed negative (ofDigits digits) ∧ signed negative (ofDigits digits) ≤ max
  · rw [if_pos hfits, if_pos hfits]
    exact checkEnd_eq rest _
  · rw [if_neg hfits, if_neg hfits]

theorem parseSigned_of_unnumbered (h : Unnumbered field) :
    parseSigned separator min max field = .error .noDigits := by
  rw [parseSigned_eq, accumulate, if_neg (Bool.eq_false_iff.1 (unnumbered_iff.1 h))]

/-- A field with a minus sign in front is refused before anything else is known of it. -/
theorem parseUnsigned_eq (min : Int) (text : List UInt8) :
    parseUnsigned separator max text =
      if (takeSign (skipBlanks text)).1 then .error .minusSign
      else parseSigned separator min max text := by
  by_cases hminus : (takeSign (skipBlanks text)).1 = true
  · rw [parseUnsigned, if_pos hminus, if_pos hminus]
  · rw [parseUnsigned, if_neg hminus, if_neg hminus, parseSigned, if_neg hminus]

/-! ## Writing -/

def signBytes (number : Int) : List UInt8 := if number < 0 then [45] else []

/-- The decimal form of an integer, with separators between some of its digits. -/
def DecimalText (separator : Option UInt8) (number : Int) (text : List UInt8) : Prop :=
  ∃ run, DigitRun separator run ((digitBytes number.natAbs).map digitValue) ∧
    text = signBytes number ++ run

theorem sign_signBytes (number : Int) : Sign (signBytes number) (decide (number < 0)) := by
  rw [signBytes]
  by_cases hneg : number < 0
  · rw [if_pos hneg, decide_eq_true hneg]
    exact .minus
  · rw [if_neg hneg, decide_eq_false hneg]
    exact .none

theorem signed_natAbs (number : Int) : signed (decide (number < 0)) number.natAbs = number := by
  rw [signed]
  split
  next hneg =>
    have := of_decide_eq_true hneg
    omega
  next hpos =>
    have := of_decide_eq_false (Bool.eq_false_iff.2 hpos)
    omega

theorem decimalText_toString (separator : Option UInt8) (number : Int) :
    DecimalText separator number (toString number).toUTF8.toList := by
  refine ⟨digitBytes number.natAbs,
    .of_digits (fun _ => isDigit_of_mem_digitBytes) (digitBytes_ne_nil _), ?_⟩
  rw [bytes_toString, signBytes]
  split
  · rfl
  · rfl

namespace DecimalText

variable {number : Int}

theorem written (h : DecimalText separator number text) :
    ∃ digits, Written separator text (decide (number < 0)) digits ∧
      signed (decide (number < 0)) (ofDigits digits) = number := by
  obtain ⟨run, hr, rfl⟩ := h
  refine ⟨_, ?_, (congrArg (signed _) (appendDigits_digitBytes _)).trans (signed_natAbs number)⟩
  have h : Written separator ([] ++ (signBytes number ++ (run ++ []))) _ _ :=
    .intro (by simp) (sign_signBytes number) hr (by simp)
  rwa [List.nil_append, List.append_nil] at h

end DecimalText

end TypedTable.Numeral
