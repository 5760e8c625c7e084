import TypedTable.Csv.Registry
import TypedTable.Proofs.Numeral.Integers
import TypedTable.Proofs.Outcome
import TypedTable.Proofs.Text.Decoding

/-!
# Texts of option values

Every kind of option value has a form of text. Some values have several texts and some have none,
but a value that has been read from a text has one that is printed, and the value read from the
printed text is the same.
-/

set_option autoImplicit false

namespace TypedTable.Csv.OptionText

/-! ## Bytes -/

theorem parseByte?_printByte {byte : UInt8} (h : byte.toNat < 128) :
    parseByte? (printByte byte) = some (some byte) := by
  have hcode : (Char.ofNat byte.toNat).toNat = byte.toNat :=
    Text.toNat_ofNat (.inl (by omega))
  unfold printByte
  split
  case isTrue htab => exact htab ▸ rfl
  split
  case isTrue hfeed => exact hfeed ▸ rfl
  split
  case isTrue hreturn => exact hreturn ▸ rfl
  rw [parseByte?, String.toList_ofList]
  dsimp only
  rw [hcode, if_pos h, UInt8.ofNat_toNat]

theorem lt_of_escaped? {letter : Char} {byte : UInt8} (h : escaped? letter = some byte) :
    byte.toNat < 128 := by
  unfold escaped? at h
  split at h
  next => exact Option.some.inj h ▸ by decide
  split at h
  next => exact Option.some.inj h ▸ by decide
  split at h
  next => exact Option.some.inj h ▸ by decide
  next => cases h

theorem lt_of_parseByte? {text : String} {byte : UInt8} (h : parseByte? text = some (some byte)) :
    byte.toNat < 128 := by
  unfold parseByte? at h
  split at h
  next => cases h
  next c _ =>
    split at h
    next hc =>
      cases h
      rw [UInt8.toNat_ofNat']
      omega
    next => cases h
  next mark letter _ =>
    split at h
    next =>
      obtain ⟨found, hfound, hbyte⟩ := Option.map_eq_some_iff.1 h
      cases hbyte
      exact lt_of_escaped? hfound
    next => cases h
  next => cases h

theorem parseByte?_printOptionalByte {byte : Option UInt8} (h : ∀ b ∈ byte, b.toNat < 128) :
    parseByte? (printOptionalByte byte) = some byte := by
  cases byte with
  | none => rfl
  | some b => exact parseByte?_printByte (h b rfl)

theorem toLower_of_lt {byte : UInt8} (h : byte.toNat < 128) :
    (Numeral.toLower byte).toNat < 128 ∧
      Numeral.toLower (Numeral.toLower byte) = Numeral.toLower byte := by
  have hall : ∀ code : Fin 128, (Numeral.toLower (UInt8.ofNat code)).toNat < 128 ∧
      Numeral.toLower (Numeral.toLower (UInt8.ofNat code)) =
        Numeral.toLower (UInt8.ofNat code) := by decide +kernel
  simpa only [UInt8.ofNat_toNat] using hall ⟨byte.toNat, h⟩

/-! ## Numbers -/

theorem isDigit_of_mem_toDigits {number : Nat} {c : Char} (h : c ∈ Nat.toDigits 10 number) :
    isDigit c = true := by
  have := Numeral.toNat_of_isDigit (Nat.isDigit_of_mem_toDigits (by decide) (by decide) h)
  simpa [isDigit] using this

theorem dropPlus_of_digits {text : List Char} (hd : ∀ c ∈ text, isDigit c = true) :
    dropPlus text = text := by
  unfold dropPlus
  split
  next => cases hd '+' List.mem_cons_self
  next => rfl

theorem numberOf?_toDigits {number : Nat} (hw : number < wordLimit) :
    numberOf? (Nat.toDigits 10 number) = some number := by
  have hdigits : ∀ c ∈ Nat.toDigits 10 number, isDigit c = true :=
    fun _ hc => isDigit_of_mem_toDigits hc
  rw [numberOf?, dropPlus_of_digits hdigits]
  dsimp only
  rw [if_neg (by simp [Nat.toDigits_ne_nil, List.all_eq_true.2 hdigits]),
    Numeral.ofDigits_toDigits, if_pos hw]

theorem lt_of_numberOf? {text : List Char} {number : Nat} (h : numberOf? text = some number) :
    number < wordLimit := by
  unfold numberOf? at h
  dsimp only at h
  split at h
  next => cases h
  next =>
    split at h
    next hw =>
      cases h
      exact hw
    next => cases h

theorem isWhiteSpace_of_isDigit {c : Char} (h : isDigit c = true) :
    Text.isWhiteSpace c = false := by
  simp only [isDigit, Bool.and_eq_true, decide_eq_true_eq] at h
  simp only [Text.isWhiteSpace, Bool.or_eq_false_iff, Bool.and_eq_false_iff,
    decide_eq_false_iff_not, beq_eq_false_iff_ne]
  omega

theorem trimWhiteSpace_of_digits {text : List Char} (hd : ∀ c ∈ text, isDigit c = true) :
    Text.trimWhiteSpace text = text := by
  have hstart (text : List Char) (hd : ∀ c ∈ text, isDigit c = true) :
      text.dropWhile Text.isWhiteSpace = text := by
    cases text with
    | nil => rfl
    | cons c rest =>
      rw [List.dropWhile_cons_of_neg]
      rw [isWhiteSpace_of_isDigit (hd c List.mem_cons_self)]
      exact Bool.false_ne_true
  rw [Text.trimWhiteSpace, hstart text hd, Text.trimEnd,
    hstart text.reverse fun c hc => hd c (List.mem_reverse.1 hc), List.reverse_reverse]

theorem numberOf?_trimWhiteSpace {number : Nat} (hw : number < wordLimit) :
    numberOf? (Text.trimWhiteSpace (Nat.toDigits 10 number)) = some number := by
  rw [trimWhiteSpace_of_digits fun _ hc => isDigit_of_mem_toDigits hc, numberOf?_toDigits hw]

theorem parseNumber?_repr {number : Nat} (hw : number < wordLimit) :
    parseNumber? (Nat.repr number) = some number := by
  rw [parseNumber?, Nat.toList_repr, numberOf?_trimWhiteSpace hw]

theorem parseCount?_printCount {count : Option Nat} (h : ∀ number ∈ count, number < wordLimit) :
    parseCount? (printCount count) = some count := by
  cases count with
  | none => rfl
  | some number =>
    have hsome : Nat.repr number ≠ "" := by
      rw [ne_eq, ← String.toList_inj, Nat.toList_repr]
      exact Nat.toDigits_ne_nil
    rw [parseCount?, printCount, Option.map_some, Option.getD_some, if_neg hsome,
      parseNumber?_repr (h number rfl)]
    rfl

theorem lt_of_parseCount? {text : String} {count : Option Nat} (h : parseCount? text = some count) :
    ∀ number ∈ count, number < wordLimit := by
  unfold parseCount? at h
  split at h
  next =>
    cases h
    simp
  next =>
    obtain ⟨number, hnumber, rfl⟩ := Option.map_eq_some_iff.1 h
    rintro _ ⟨⟩
    exact lt_of_numberOf? hnumber

/-! ## Sets of line numbers -/

theorem not_parts_of_isDigit {c : Char} (h : isDigit c = true) : ¬ (c = ',' ∨ c = ' ') := by
  rintro (rfl | rfl) <;> cases h

theorem pieces_append {piece rest : List Char} (hp : ∀ c ∈ piece, isDigit c = true)
    (hn : piece ≠ []) (hr : rest = [] ∨ ∃ later, rest = ',' :: later) :
    pieces (piece ++ rest) = piece :: pieces rest := by
  induction piece with
  | nil => exact absurd rfl hn
  | cons c later ih =>
    have hc := not_parts_of_isDigit (hp c List.mem_cons_self)
    cases later with
    | nil =>
      rcases hr with rfl | ⟨later, rfl⟩
      · simp [pieces, hc]
      · simp [pieces, hc]
    | cons next later =>
      have hnext := not_parts_of_isDigit (hp next (by simp))
      have hpieces := ih (fun c hm => hp c (List.mem_cons_of_mem _ hm)) (by simp)
      rw [List.cons_append, List.cons_append, pieces, if_neg hc]
      rw [List.cons_append] at hpieces
      simp only [hpieces]
      rw [if_neg hnext]

theorem pieces_intercalate (lines : List Nat) :
    pieces (",".intercalate (lines.map Nat.repr)).toList = lines.map (Nat.toDigits 10) := by
  have hdigits (line : Nat) : ∀ c ∈ Nat.toDigits 10 line, isDigit c = true :=
    fun _ hc => isDigit_of_mem_toDigits hc
  induction lines with
  | nil => rfl
  | cons line later ih =>
    cases later with
    | nil =>
      have hlast := pieces_append (hdigits line) Nat.toDigits_ne_nil (.inl rfl)
      rw [List.append_nil] at hlast
      rw [List.map_singleton, String.intercalate_singleton, Nat.toList_repr]
      exact hlast
    | cons next later =>
      rw [List.map_cons, List.map_cons, String.intercalate_cons_cons, String.toList_append,
        String.toList_append, Nat.toList_repr, List.append_assoc, ← List.map_cons]
      have hfirst := pieces_append (hdigits line) Nat.toDigits_ne_nil
        (.inr ⟨(",".intercalate ((next :: later).map Nat.repr)).toList, rfl⟩)
      -- the comma itself is no piece
      refine hfirst.trans ?_
      exact congrArg (Nat.toDigits 10 line :: ·) ih

end TypedTable.Csv.OptionText

namespace TypedTable.Csv

namespace LineSet

variable {line : Nat} {lines : List Nat}

theorem mem_insertInto {other : Nat} :
    other ∈ insertInto line lines ↔ other = line ∨ other ∈ lines := by
  induction lines with
  | nil => simp [insertInto]
  | cons head rest ih =>
    unfold insertInto
    split
    next => simp
    next =>
      split
      next heq => simp [heq]
      next => simp [ih, or_left_comm]

theorem pairwise_insertInto (h : lines.Pairwise (· < ·)) :
    (insertInto line lines).Pairwise (· < ·) := by
  induction lines with
  | nil => exact List.pairwise_singleton _ _
  | cons head rest ih =>
    obtain ⟨hhead, hrest⟩ := List.pairwise_cons.1 h
    unfold insertInto
    split
    next hlt =>
      refine List.pairwise_cons.2 ⟨fun other hm => ?_, h⟩
      rcases List.mem_cons.1 hm with rfl | hm
      · exact hlt
      · exact Nat.lt_trans hlt (hhead other hm)
    next =>
      split
      next => exact h
      next =>
        refine List.pairwise_cons.2 ⟨fun other hm => ?_, ih hrest⟩
        rcases mem_insertInto.1 hm with rfl | hm
        · omega
        · exact hhead other hm

theorem insertInto_last (h : ∀ other ∈ lines, other < line) :
    insertInto line lines = lines ++ [line] := by
  induction lines with
  | nil => rfl
  | cons head rest ih =>
    have hlt := h head List.mem_cons_self
    rw [insertInto, if_neg (by omega), if_neg (by omega),
      ih fun other hm => h other (List.mem_cons_of_mem _ hm)]
    rfl

theorem foldl_insert {P : Nat → Prop} {set : LineSet} (hs : set.lines.Pairwise (· < ·))
    (hp : ∀ line ∈ set.lines, P line) (hl : ∀ line ∈ lines, P line) :
    (lines.foldl insert set).lines.Pairwise (· < ·) ∧
      ∀ line ∈ (lines.foldl insert set).lines, P line := by
  induction lines generalizing set with
  | nil => exact ⟨hs, hp⟩
  | cons line later ih =>
    obtain ⟨hline, hlater⟩ := List.forall_mem_cons.1 hl
    refine ih (pairwise_insertInto hs) (fun other hm => ?_) hlater
    rcases mem_insertInto.1 hm with rfl | hm
    · exact hline
    · exact hp other hm

theorem foldl_insert_of_pairwise {set : LineSet} (h : (set.lines ++ lines).Pairwise (· < ·)) :
    lines.foldl insert set = ⟨set.lines ++ lines⟩ := by
  induction lines generalizing set with
  | nil => simp
  | cons line later ih =>
    have hlast : set.insert line = ⟨set.lines ++ [line]⟩ :=
      congrArg mk (insertInto_last fun other hm =>
        (List.pairwise_append.1 h).2.2 other hm line List.mem_cons_self)
    rw [List.foldl_cons, hlast, ih (by simpa using h)]
    simp

end LineSet

namespace OptionText

theorem parseLine_toDigits {line : Nat} (hw : line < wordLimit) :
    parseLine (Nat.toDigits 10 line) = .ok line := by
  rw [parseLine, numberOf?_trimWhiteSpace hw]

theorem lt_of_parseLine {piece : List Char} {line : Nat} (h : parseLine piece = .ok line) :
    line < wordLimit := by
  unfold parseLine at h
  split at h
  next number hnumber =>
    cases h
    exact lt_of_numberOf? hnumber
  next => cases h

theorem parseLines_printLines {set : LineSet} (hs : set.lines.Pairwise (· < ·))
    (hw : ∀ line ∈ set.lines, line < wordLimit) : parseLines (printLines set) = .ok set := by
  have hlines : (pieces (printLines set).toList).mapM parseLine = .ok set.lines := by
    rw [printLines, pieces_intercalate, mapM_eq_ok_iff, List.map_map]
    exact List.map_congr_left fun line hm => parseLine_toDigits (hw line hm)
  have hset : LineSet.ofList set.lines = set := LineSet.foldl_insert_of_pairwise hs
  rw [parseLines, hlines, ok_bind, hset]
  rfl

theorem lines_of_parseLines {text : String} {set : LineSet} (h : parseLines text = .ok set) :
    set.lines.Pairwise (· < ·) ∧ ∀ line ∈ set.lines, line < wordLimit := by
  obtain ⟨lines, hlines, h⟩ := bind_eq_ok_iff.1 h
  cases h
  refine LineSet.foldl_insert List.Pairwise.nil (by simp) fun line hm => ?_
  have hline : (Except.ok line : Except OptionFault Nat) ∈ lines.map .ok := List.mem_map_of_mem hm
  rw [← mapM_eq_ok_iff.1 hlines] at hline
  obtain ⟨piece, -, hpiece⟩ := List.mem_map.1 hline
  exact lt_of_parseLine hpiece

end OptionText

end TypedTable.Csv
