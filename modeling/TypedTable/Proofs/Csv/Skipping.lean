import Mathlib.Tactic.SplitIfs
import TypedTable.Proofs.Csv.Contents
import TypedTable.Proofs.Csv.Pieces

/-!
# Skipped records

The records that are skipped are read in states of their own. Two splitters run beside each other,
one of which skips nothing: in a record that both commit they make the same moves, and in one that is
skipped the other splitter only has to find its end. It does so unless the record begins with a
delimiter that changes where it ends.
-/

set_option autoImplicit false

namespace TypedTable.Csv

def Dialect.skipping (lines : LineSet) (first : Nat) : Dialect :=
  { commentChar := none, skippedLines := lines, skippedFirstLines := first }

/-- What is not skipped of a list with one entry for each record from number `line` on. -/
def Dialect.kept {α : Type} (d : Dialect) (line : Nat) : List α → List α
  | [] => []
  | entry :: later =>
    if d.skipsLine line then d.kept (line + 1) later else entry :: d.kept (line + 1) later

inductive Place where
  | start
  | fieldStart
  | inField
  | inQuotes
  | afterQuote
deriving DecidableEq

namespace Place

def next (c : UInt8) : Place → Place
  | .inQuotes => if c = 34 then .afterQuote else .inQuotes
  | .inField => if c = 10 then .start else if c = 44 then .fieldStart else .inField
  | .start | .fieldStart | .afterQuote =>
    if c = 10 then .start else if c = 44 then .fieldStart else if c = 34 then .inQuotes
    else .inField

def state : Place → SplitState
  | .start => .lineStart
  | .fieldStart => .fieldStart
  | .inField => .inField
  | .inQuotes => .inQuotes
  | .afterQuote => .afterQuote

def skippedState : Place → SplitState
  | .start => .lineStart
  | .fieldStart => .skippedFieldStart
  | .inField => .inSkippedField
  | .inQuotes => .inSkippedQuotes
  | .afterQuote => .afterSkippedQuote

def EndAlike (p q : Place) : List UInt8 → Prop
  | [] => True
  | c :: rest =>
    (p.next c = .start ↔ q.next c = .start) ∧
      (p.next c ≠ .start → (p.next c).EndAlike (q.next c) rest)

theorem EndAlike.refl (p : Place) (bytes : List UInt8) : p.EndAlike p bytes := by
  induction bytes generalizing p with
  | nil => trivial
  | cons c rest ih => exact ⟨Iff.rfl, fun _ => ih _⟩

instance EndAlike.decidable (p q : Place) : (bytes : List UInt8) → Decidable (p.EndAlike q bytes)
  | [] => inferInstanceAs (Decidable True)
  | c :: rest =>
    have := EndAlike.decidable (p.next c) (q.next c) rest
    inferInstanceAs (Decidable (_ ∧ _))

end Place

/-- Whether every skipped record that begins with a delimiter ends where it would end with an
ordinary byte in place of the delimiter. The first of the bytes is at `place` in record number
`line`. -/
def Dialect.FindsEnds (d : Dialect) (line : Nat) (place : Place) : List UInt8 → Prop
  | [] => True
  | c :: rest =>
    (place = .start → c = 44 → d.skipsLine line = true →
      Place.fieldStart.EndAlike .inField rest) ∧
    d.FindsEnds (if place.next c = .start then line + 1 else line) (place.next c) rest

namespace Dialect

instance FindsEnds.decidable (d : Dialect) (line : Nat) (place : Place) :
    (bytes : List UInt8) → Decidable (d.FindsEnds line place bytes)
  | [] => inferInstanceAs (Decidable True)
  | c :: rest =>
    have := FindsEnds.decidable d (if place.next c = .start then line + 1 else line)
      (place.next c) rest
    inferInstanceAs (Decidable (_ ∧ _))

variable (lines : LineSet) (first : Nat) (c : UInt8)

theorem kept_append_singleton {α : Type} (d : Dialect) (line : Nat) (entries : List α)
    (entry : α) : d.kept line (entries ++ [entry]) =
      d.kept line entries ++ if d.skipsLine (line + entries.length) then [] else [entry] := by
  induction entries generalizing line with
  | nil =>
    rw [List.nil_append, kept, kept, kept, List.length_nil, Nat.add_zero, List.nil_append]
  | cons head later ih =>
    rw [List.cons_append, kept, kept, ih, List.length_cons, Nat.add_right_comm, Nat.add_assoc]
    split_ifs <;> rfl

@[simp] theorem skipping_isTerminator : (skipping lines first).isTerminator c = (c == 10) := rfl

@[simp] theorem skipping_isReturn : (skipping lines first).isReturn c = (c == 13) := rfl

@[simp] theorem skipping_isQuote : (skipping lines first).isQuote c = (c == 34) := rfl

@[simp] theorem skipping_isDelimiter : (skipping lines first).isDelimiter c = (c == 44) := rfl

@[simp] theorem skipping_isEscape : (skipping lines first).isEscape c = false := rfl

@[simp] theorem skipping_isComment : (skipping lines first).isComment c = false := rfl

@[simp] theorem skipping_isInitialSpace : (skipping lines first).isInitialSpace c = false := by
  simp [isInitialSpace, skipping]

@[simp] theorem skipping_blankDelimited : (skipping lines first).blankDelimited = false := rfl

@[simp] theorem skipping_doubleQuote : (skipping lines first).doubleQuote = true := rfl

@[simp] theorem skipping_skipEmptyLines : (skipping lines first).skipEmptyLines = false := rfl

end Dialect

namespace Splitter

variable {lines : LineSet} {first : Nat} {s t u : Splitter} {c : UInt8} {place : Place}

/-! ## One byte of a record -/

/-- What a byte of a record does that is not skipped. An empty record has no field at all. -/
def follow (place : Place) (c : UInt8) (s : Splitter) : Splitter :=
  match place.next c with
  | .start => (if place = .start then s else s.closeField).commitLine.enter .lineStart
  | .fieldStart => s.closeField.enter .fieldStart
  | .inField => (s.push c).enter .inField
  | .inQuotes =>
    if place = .inQuotes ∨ place = .afterQuote then (s.push c).enter .inQuotes
    else s.enter .inQuotes
  | .afterQuote => s.enter .afterQuote

theorem endLine_anyWidth (d : Dialect) (hwidth : s.anyWidth = true)
    (hs : s.state.isSkipping = false) : s.endLine d = .ok s.commitLine := by
  simp [endLine, hs, requiredFields, hwidth]

theorem endLine_skipped (d : Dialect) (hs : s.state.isSkipping = true) :
    s.endLine d = .ok s.countLine.discardLine := if_pos hs

theorem readAtFieldStart_place (hwidth : s.anyWidth = true) (hc : c ≠ 13)
    (hstart : place = .fieldStart ∨ place = .start ∧ c ≠ 10) :
    (s.enter .fieldStart).readAtFieldStart (.skipping lines first) c =
      .ok (s.follow place c) := by
  have hended := endLine_anyWidth (s := (s.enter .fieldStart).closeField)
    (.skipping lines first) hwidth rfl
  simp only [readAtFieldStart, Dialect.skipping_isTerminator,
    Dialect.skipping_isReturn, Dialect.skipping_isQuote, Dialect.skipping_isDelimiter,
    Dialect.skipping_isEscape, Dialect.skipping_isComment, Dialect.skipping_isInitialSpace,
    Dialect.skipping_blankDelimited, beq_iff_eq, hc, Bool.false_eq_true, if_false, endLineTo,
    hended, ok_bind, pure_eq_ok]
  by_cases hfeed : c = 10
  · subst hfeed
    obtain rfl : place = .fieldStart := by simpa using hstart
    rfl
  have hnext : place.next c = if c = 44 then .fieldStart else if c = 34 then .inQuotes
      else .inField := by
    rcases hstart with rfl | ⟨rfl, -⟩ <;> exact if_neg hfeed
  have hplace : ¬ (place = .inQuotes ∨ place = .afterQuote) := by
    rcases hstart with rfl | ⟨rfl, -⟩ <;> decide
  rw [follow, hnext, if_neg hplace]
  by_cases hdelimiter : c = 44
  · subst hdelimiter
    rfl
  by_cases hquote : c = 34
  · subst hquote
    rfl
  simp only [hfeed, hdelimiter, hquote, if_false]
  rfl

theorem readByte_place (hwidth : s.anyWidth = true) (hc : c ≠ 13) (hs : s.state = place.state)
    (hstart : place = .start → (Dialect.skipping lines first).skipsLine s.fileLines = false) :
    s.readByte (.skipping lines first) c = .ok (s.follow place c) := by
  have hskipping : s.state.isSkipping = false := by
    rw [hs]
    cases place <;> rfl
  have hended := endLine_anyWidth (s := s.closeField) (.skipping lines first) hwidth hskipping
  have hsame {state : SplitState} (h : s.state = state) : s.enter state = s := by
    rw [← h]
    rfl
  rw [readByte_of_not_return _ c s (by rw [hs]; cases place <;> simp [Place.state])
    (by rw [hs]; cases place <;> simp [Place.state]), accept, hs]
  -- in every place the two special bytes of its state come first, then the ordinary ones
  cases place with
  | start =>
    simp only [Place.state, readAtLineStart, hstart rfl, Dialect.skipping_isTerminator,
      Dialect.skipping_isReturn, Dialect.skipping_isComment, Dialect.skipping_blankDelimited,
      Dialect.skipping_skipEmptyLines, beq_iff_eq, hc, Bool.false_eq_true, and_false, if_false]
    by_cases hfeed : c = 10
    · rw [if_pos hfeed, endLineTo, endLine_anyWidth _ hwidth hskipping, hfeed]
      rfl
    · rw [if_neg hfeed, ite_self]
      exact readAtFieldStart_place hwidth hc (.inr ⟨rfl, hfeed⟩)
  | fieldStart =>
    have hfield : (s.enter .fieldStart).readAtFieldStart (.skipping lines first) c =
        .ok (s.follow .fieldStart c) := readAtFieldStart_place hwidth hc (.inl rfl)
    rw [hsame (show s.state = .fieldStart from hs)] at hfield
    exact hfield
  | inField =>
    simp only [Place.state, readInField, Dialect.skipping_isTerminator, Dialect.skipping_isReturn,
      Dialect.skipping_isDelimiter, Dialect.skipping_isEscape, Dialect.skipping_isComment,
      afterDelimiter, Dialect.skipping_blankDelimited, beq_iff_eq, endLineTo, hended, hc,
      Bool.false_eq_true, if_false, follow, Place.next, ok_bind, pure_eq_ok]
    by_cases hfeed : c = 10
    · subst hfeed
      rfl
    by_cases hdelimiter : c = 44
    · subst hdelimiter
      rfl
    simp only [hfeed, hdelimiter, if_false]
    exact congrArg (Except.ok <| push · c) (hsame hs).symm
  | inQuotes =>
    simp only [Place.state, readInQuotes, Dialect.skipping_isEscape, Dialect.skipping_isQuote,
      Dialect.skipping_doubleQuote, beq_iff_eq, Bool.false_eq_true, if_false, if_true, follow,
      Place.next]
    by_cases hquote : c = 34
    · simp only [hquote, if_true]
    simp only [hquote, if_false, true_or, if_true]
    exact congrArg (Except.ok <| push · c) (hsame hs).symm
  | afterQuote =>
    simp only [Place.state, readAfterQuote, Dialect.skipping_isTerminator,
      Dialect.skipping_isReturn, Dialect.skipping_isQuote, Dialect.skipping_isDelimiter,
      afterDelimiter, Dialect.skipping_blankDelimited, beq_iff_eq, endLineTo, hended, hc,
      Bool.false_eq_true, if_false, follow, Place.next, ok_bind, pure_eq_ok]
    by_cases hfeed : c = 10
    · subst hfeed
      rfl
    by_cases hdelimiter : c = 44
    · subst hdelimiter
      rfl
    by_cases hquote : c = 34
    · subst hquote
      rfl
    simp only [hfeed, hdelimiter, hquote, if_false]

variable (lines first) in
theorem readByte_skippedPlace (hc : c ≠ 13) (hs : t.state = place.skippedState)
    (hopen : place ≠ .start) :
    t.readByte (.skipping lines first) c =
      .ok (if place.next c = .start then t.countLine.discardLine.enter .lineStart
        else t.enter (place.next c).skippedState) := by
  have hskipping : t.state.isSkipping = true := by
    rw [hs]
    cases place with
    | start => exact absurd rfl hopen
    | _ => rfl
  have hended := endLine_skipped (.skipping lines first) hskipping
  have hsame {state : SplitState} (h : t.state = state) : t.enter state = t := by
    rw [← h]
    rfl
  rw [readByte_of_not_return _ c t (by rw [hs]; cases place <;> simp [Place.skippedState])
    (by rw [hs]; cases place <;> simp [Place.skippedState]), accept, hs]
  -- a skipped record has the same places, but its fields go nowhere
  cases place with
  | start => exact absurd rfl hopen
  | fieldStart =>
    simp only [Place.skippedState, readAtSkippedField, Dialect.skipping_isTerminator,
      Dialect.skipping_isReturn, Dialect.skipping_isQuote, Dialect.skipping_isDelimiter,
      beq_iff_eq, endLineTo, hended, hc, if_false, Place.next, ok_bind, pure_eq_ok]
    by_cases hfeed : c = 10
    · subst hfeed
      rfl
    by_cases hquote : c = 34
    · subst hquote
      rfl
    by_cases hdelimiter : c = 44
    · subst hdelimiter
      exact congrArg Except.ok (hsame hs).symm
    simp [hfeed, hquote, hdelimiter]
  | inField =>
    simp only [Place.skippedState, readInSkippedField, Dialect.skipping_isTerminator,
      Dialect.skipping_isReturn, Dialect.skipping_isDelimiter, beq_iff_eq, endLineTo, hended, hc,
      if_false, Place.next, ok_bind, pure_eq_ok]
    by_cases hfeed : c = 10
    · subst hfeed
      rfl
    by_cases hdelimiter : c = 44
    · subst hdelimiter
      rfl
    simp only [hfeed, hdelimiter, if_false]
    exact congrArg Except.ok (hsame hs).symm
  | inQuotes =>
    simp only [Place.skippedState, readInSkippedQuotes, Dialect.skipping_isQuote,
      Dialect.skipping_doubleQuote, beq_iff_eq, if_true, Place.next]
    by_cases hquote : c = 34
    · subst hquote
      rfl
    simp only [hquote, if_false]
    exact congrArg Except.ok (hsame hs).symm
  | afterQuote =>
    simp only [Place.skippedState, readAfterSkippedQuote, Dialect.skipping_isTerminator,
      Dialect.skipping_isReturn, Dialect.skipping_isQuote, Dialect.skipping_isDelimiter,
      beq_iff_eq, endLineTo, hended, hc, if_false, Place.next, ok_bind, pure_eq_ok]
    by_cases hfeed : c = 10
    · subst hfeed
      rfl
    by_cases hquote : c = 34
    · subst hquote
      rfl
    by_cases hdelimiter : c = 44
    · subst hdelimiter
      rfl
    simp [hfeed, hquote, hdelimiter]

/-- The first byte of a skipped record. A delimiter is taken for part of an unquoted field. -/
theorem readByte_skippedStart (hc : c ≠ 13) (hs : t.state = .lineStart)
    (hskips : (Dialect.skipping lines first).skipsLine t.fileLines = true) :
    t.readByte (.skipping lines first) c =
      .ok (if c = 10 then t.countLine.discardLine.enter .lineStart
        else t.enter (if c = 44 then Place.inField else Place.start.next c).skippedState) := by
  rw [readByte_of_not_return _ c t (by simp [hs]) (by simp [hs]), accept, hs]
  simp only [readAtLineStart, hskips, if_true, readAtSkippedLine, Dialect.skipping_isQuote,
    Dialect.skipping_isTerminator, beq_iff_eq, endLineTo]
  by_cases hquote : c = 34
  · subst hquote
    rfl
  by_cases hfeed : c = 10
  · subst hfeed
    rfl
  by_cases hdelimiter : c = 44
  · subst hdelimiter
    rfl
  simp only [hquote, hfeed, hdelimiter, if_false, Place.next]
  rfl

/-! ## Two splitters beside each other -/

def numbers (s : Splitter) : List Nat := s.lines.toList.map (·.number)

theorem follow_state (place : Place) (c : UInt8) (s : Splitter) :
    (s.follow place c).state = (place.next c).state := by
  rw [follow]
  cases place.next c with
  | inQuotes =>
    dsimp only
    split_ifs <;> rfl
  | _ => rfl

theorem follow_anyWidth (place : Place) (c : UInt8) (s : Splitter) :
    (s.follow place c).anyWidth = s.anyWidth := by
  rw [follow]
  cases place.next c with
  | start | inQuotes =>
    dsimp only
    split_ifs <;> rfl
  | _ => rfl

theorem follow_open (hopen : place.next c ≠ .start) (s : Splitter) :
    (s.follow place c).lines = s.lines ∧ (s.follow place c).fileLines = s.fileLines := by
  rw [follow]
  cases hnext : place.next c with
  | start => exact absurd hnext hopen
  | inQuotes =>
    dsimp only
    split_ifs <;> exact ⟨rfl, rfl⟩
  | _ => exact ⟨rfl, rfl⟩

/-- A byte inside a record changes the fields read so far alike, whatever was committed. -/
theorem holds_follow_open (hopen : place.next c ≠ .start) (fields : List (List UInt8))
    (field : List UInt8) : ∃ more rest, ∀ {s : Splitter} {rows : List (List (List UInt8))},
      s.Holds rows fields field → (s.follow place c).Holds rows more rest := by
  simp only [follow]
  cases hnext : place.next c with
  | start => exact absurd hnext hopen
  | fieldStart => exact ⟨_, _, fun h => h.closeField.enter _⟩
  | inField => exact ⟨_, _, fun h => (h.push c).enter _⟩
  | inQuotes =>
    dsimp only
    split_ifs
    · exact ⟨_, _, fun h => (h.push c).enter _⟩
    · exact ⟨_, _, fun h => h.enter _⟩
  | afterQuote => exact ⟨_, _, fun h => h.enter _⟩

theorem follow_ended (hended : place.next c = .start) (s : Splitter) :
    (s.follow place c).fileLines = s.fileLines + 1 ∧
      (s.follow place c).numbers = s.numbers ++ [s.fileLines + 1] := by
  rw [follow, hended]
  dsimp only
  split_ifs <;> exact ⟨rfl, by simp [numbers, enter, commitLine, closeField]⟩

/-- The last byte of a record commits the same fields, whatever was committed before. -/
theorem holds_follow_ended (hended : place.next c = .start) (fields : List (List UInt8))
    (field : List UInt8) (hempty : place = .start → field = []) :
    ∃ row, ∀ {s : Splitter} {rows : List (List (List UInt8))},
      s.Holds rows fields field → (s.follow place c).Holds (rows ++ [row]) [] [] := by
  simp only [follow, hended]
  split_ifs with hstart
  · refine ⟨fields, fun h => ?_⟩
    rw [hempty hstart] at h
    exact h.commitLine.enter _
  · exact ⟨_, fun h => h.closeField.commitLine.enter _⟩

/-- What two splitters hold at a place of record number `line`, the second one without the records
that are skipped. -/
inductive Contents (d : Dialect) (line : Nat) (bytes : List UInt8) (s t : Splitter)
    (rows : List (List (List UInt8))) : Place → Prop
  | between (hs : s.Holds rows [] []) (ht : t.Holds (d.kept 0 rows) [] [])
      (hstate : t.state = .lineStart) : Contents d line bytes s t rows .start
  | kept {place : Place} {fields : List (List UInt8)} {field : List UInt8}
      (hline : d.skipsLine line = false) (hopen : place ≠ .start) (hs : s.Holds rows fields field)
      (ht : t.Holds (d.kept 0 rows) fields field) (hstate : t.state = place.state) :
      Contents d line bytes s t rows place
  | skipped {place other : Place} {fields : List (List UInt8)} {field : List UInt8}
      (hline : d.skipsLine line = true) (hopen : place ≠ .start) (hs : s.Holds rows fields field)
      (ht : t.Holds (d.kept 0 rows) [] []) (hother : other ≠ .start)
      (hstate : t.state = other.skippedState) (hends : place.EndAlike other bytes) :
      Contents d line bytes s t rows place

/-- One splitter skips nothing and the other one what its dialect says, and both have read the same
bytes. -/
structure Beside (d : Dialect) (line : Nat) (place : Place) (bytes : List UInt8)
    (s t : Splitter) : Prop where
  state : s.state = place.state
  anyWidth : s.anyWidth = true ∧ t.anyWidth = true
  fileLines : s.fileLines = line ∧ t.fileLines = line
  numbers : t.numbers = d.kept 0 s.numbers
  contents : ∃ rows, rows.length = line ∧ Contents d line bytes s t rows place

namespace Beside

variable {d : Dialect} {line : Nat} {bytes before : List UInt8} {rows : List (List (List UInt8))}
  {fields : List (List UInt8)} {field : List UInt8}

theorem numbers_length (h : s.Holds rows fields field) : s.numbers.length = rows.length := by
  simp [Splitter.numbers, h.count]

variable (bytes) in
/-- Both splitters read a byte of a record that is kept. -/
theorem follow (h : Beside d line place before s t) (hline : d.skipsLine line = false)
    (hcount : rows.length = line) (hs : s.Holds rows fields field)
    (ht : t.Holds (d.kept 0 rows) fields field) (hempty : place = .start → field = []) :
    Beside d (if place.next c = .start then line + 1 else line) (place.next c) bytes
      (s.follow place c) (t.follow place c) := by
  have hwidth : (s.follow place c).anyWidth = true ∧ (t.follow place c).anyWidth = true := by
    rw [follow_anyWidth, follow_anyWidth]
    exact h.anyWidth
  by_cases hended : place.next c = .start
  · obtain ⟨row, hrow⟩ := holds_follow_ended hended fields field hempty
    have hkept {α : Type} (entries : List α) (entry : α) (hlength : entries.length = line) :
        d.kept 0 (entries ++ [entry]) = d.kept 0 entries ++ [entry] := by
      rw [Dialect.kept_append_singleton, Nat.zero_add, hlength, hline, if_neg (by simp)]
    rw [if_pos hended, hended]
    refine ⟨hended ▸ follow_state place c s, hwidth, ?_, ?_, rows ++ [row], ?_, ?_⟩
    · rw [(follow_ended hended s).1, (follow_ended hended t).1, h.fileLines.1, h.fileLines.2]
      exact ⟨rfl, rfl⟩
    · rw [(follow_ended hended s).2, (follow_ended hended t).2, h.fileLines.1, h.fileLines.2,
        h.numbers, hkept _ _ ((numbers_length hs).trans hcount)]
    · rw [List.length_append, hcount, List.length_singleton]
    · refine .between (hrow hs) ?_ ?_
      · rw [hkept rows row hcount]
        exact hrow ht
      · rw [follow_state, hended]
        rfl
  · obtain ⟨more, rest, hmore⟩ := holds_follow_open hended fields field
    obtain ⟨hslines, hscount⟩ := follow_open hended s
    obtain ⟨htlines, htcount⟩ := follow_open hended t
    rw [if_neg hended]
    refine ⟨follow_state place c s, hwidth, ?_, ?_, rows, hcount, ?_⟩
    · rw [hscount, htcount]
      exact h.fileLines
    · rw [Splitter.numbers, Splitter.numbers, hslines, htlines]
      exact h.numbers
    · exact .kept hline hended (hmore hs) (hmore ht) (follow_state place c t)

variable (bytes) in
/-- One splitter reads a byte of a record that the other one skips. -/
theorem skip (other : Place) (h : Beside d line place before s t)
    (hline : d.skipsLine line = true) (hcount : rows.length = line)
    (hs : s.Holds rows fields field) (ht : t.Holds (d.kept 0 rows) [] [])
    (hempty : place = .start → field = [])
    (hother : place.next c ≠ .start → other ≠ .start ∧ (place.next c).EndAlike other bytes) :
    Beside d (if place.next c = .start then line + 1 else line) (place.next c) bytes
      (s.follow place c)
      (if place.next c = .start then t.countLine.discardLine.enter .lineStart
        else t.enter other.skippedState) := by
  have hwidth : (s.follow place c).anyWidth = true := by
    rw [follow_anyWidth]
    exact h.anyWidth.1
  by_cases hended : place.next c = .start
  · obtain ⟨row, hrow⟩ := holds_follow_ended hended fields field hempty
    have hkept {α : Type} (entries : List α) (entry : α) (hlength : entries.length = line) :
        d.kept 0 (entries ++ [entry]) = d.kept 0 entries := by
      rw [Dialect.kept_append_singleton, Nat.zero_add, hlength, hline, if_pos rfl, List.append_nil]
    rw [if_pos hended, if_pos hended, hended]
    refine ⟨hended ▸ follow_state place c s, ⟨hwidth, h.anyWidth.2⟩, ?_, ?_, rows ++ [row], ?_, ?_⟩
    · rw [(follow_ended hended s).1, h.fileLines.1]
      exact ⟨rfl, congrArg (· + 1) h.fileLines.2⟩
    · rw [(follow_ended hended s).2, hkept _ _ ((numbers_length hs).trans hcount)]
      exact h.numbers
    · rw [List.length_append, hcount, List.length_singleton]
    · refine .between (hrow hs) ?_ rfl
      rw [hkept rows row hcount]
      exact ht.countLine.discardLine.enter _
  · obtain ⟨more, rest, hmore⟩ := holds_follow_open hended fields field
    obtain ⟨hslines, hscount⟩ := follow_open hended s
    obtain ⟨hne, hends⟩ := hother hended
    rw [if_neg hended, if_neg hended]
    refine ⟨follow_state place c s, ⟨hwidth, h.anyWidth.2⟩, ?_, ?_, rows, hcount, ?_⟩
    · rw [hscount]
      exact h.fileLines
    · rw [Splitter.numbers, Splitter.numbers, hslines]
      exact h.numbers
    · exact .skipped hline hended (hmore hs) (ht.enter _) hne rfl hends

theorem readByte (h : Beside (.skipping lines first) line place (c :: bytes) s t) (hc : c ≠ 13)
    (hfinds : (Dialect.skipping lines first).FindsEnds line place (c :: bytes)) :
    ∃ s' t', s.readByte (.skipping {} 0) c = .ok s' ∧
      t.readByte (.skipping lines first) c = .ok t' ∧
      Beside (.skipping lines first) (if place.next c = .start then line + 1 else line)
        (place.next c) bytes s' t' := by
  obtain ⟨rows, hcount, hcontents⟩ := h.contents
  have hfull : s.readByte (.skipping {} 0) c = .ok (s.follow place c) :=
    readByte_place h.anyWidth.1 hc h.state fun _ => rfl
  cases hcontents with
  | between hs ht hstate =>
    by_cases hline : (Dialect.skipping lines first).skipsLine line = true
    · have hskips : (Dialect.skipping lines first).skipsLine t.fileLines = true := by
        rwa [h.fileLines.2]
      have hskipped := readByte_skippedStart hc hstate hskips
      have hnext : c = 10 ↔ Place.start.next c = .start := by
        simp only [Place.next]
        split_ifs <;> simp_all
      simp only [hnext] at hskipped
      refine ⟨_, _, hfull, hskipped, h.skip _ _ hline hcount hs ht (fun _ => rfl) fun hopen => ?_⟩
      by_cases hdelimiter : c = 44
      · have hends := hfinds.1 rfl hdelimiter hline
        subst hdelimiter
        exact ⟨by decide, hends⟩
      · rw [if_neg hdelimiter]
        exact ⟨hopen, .refl _ _⟩
    · have hline := Bool.eq_false_iff.2 hline
      have hkept : t.readByte (.skipping lines first) c = .ok (t.follow .start c) :=
        readByte_place h.anyWidth.2 hc hstate fun _ => by rwa [h.fileLines.2]
      exact ⟨_, _, hfull, hkept, h.follow _ hline hcount hs ht fun _ => rfl⟩
  | kept hline hopen hs ht hstate =>
    exact ⟨_, _, hfull, readByte_place h.anyWidth.2 hc hstate fun heq => absurd heq hopen,
      h.follow _ hline hcount hs ht fun heq => absurd heq hopen⟩
  | skipped hline hopen hs ht hother hstate hends =>
    have hskipped := readByte_skippedPlace lines first hc hstate hother
    obtain ⟨hnext, hlater⟩ := hends
    simp only [← hnext] at hskipped
    refine ⟨_, _, hfull, hskipped, h.skip _ _ hline hcount hs ht (fun heq => absurd heq hopen) ?_⟩
    intro hgoes
    exact ⟨fun heq => hgoes (hnext.2 heq), hlater hgoes⟩

theorem readAll (h : Beside (.skipping lines first) line place bytes s t)
    (hbytes : ∀ c ∈ bytes, c ≠ 13)
    (hfinds : (Dialect.skipping lines first).FindsEnds line place bytes) :
    ∃ line place s' t', s.readAll (.skipping {} 0) bytes = .ok s' ∧
      t.readAll (.skipping lines first) bytes = .ok t' ∧
      Beside (.skipping lines first) line place [] s' t' := by
  induction bytes generalizing line place s t with
  | nil => exact ⟨line, place, s, t, rfl, rfl, h⟩
  | cons c rest ih =>
    obtain ⟨s', t', hs, ht, hnext⟩ := h.readByte (hbytes c (by simp)) hfinds
    obtain ⟨line, place, u, v, hu, hv, hend⟩ :=
      ih hnext (fun b hb => hbytes b (by simp [hb])) hfinds.2
    refine ⟨line, place, u, v, ?_, ?_, hend⟩
    · rw [readAll_cons, hs, ok_bind, hu]
    · rw [readAll_cons, ht, ok_bind, hv]

/-- Between two records the second splitter has what is kept of the first one. -/
theorem agree (h : Beside d line .start bytes s t) :
    t.rows = d.kept 0 s.rows ∧ t.numbers = d.kept 0 s.numbers ∧ t.fileLines = s.fileLines := by
  obtain ⟨rows, -, hcontents⟩ := h.contents
  refine ⟨?_, h.numbers, h.fileLines.2.trans h.fileLines.1.symm⟩
  cases hcontents with
  | between hs ht _ => rw [hs.rows_eq, ht.rows_eq]
  | kept _ hopen _ _ _ => exact absurd rfl hopen
  | skipped _ hopen _ _ _ _ _ => exact absurd rfl hopen

theorem finish_place (hwidth : s.anyWidth = true) (hs : s.state = place.state)
    (hopen : place ≠ .start) (hquotes : place ≠ .inQuotes) :
    place.next 10 = .start ∧ s.finish d = .ok ((s.follow place 10).enter .finished) := by
  have hskipping : s.state.isSkipping = false := by
    rw [hs]
    cases place <;> rfl
  have hended := endLine_anyWidth (s := s.closeField) d hwidth hskipping
  cases place with
  | start => exact absurd rfl hopen
  | inQuotes => exact absurd rfl hquotes
  | _ =>
    refine ⟨rfl, ?_⟩
    rw [Splitter.finish, endLastLine, hs]
    simp only [Place.state, hended]
    rfl

theorem finish_skipped {other : Place} (ht : t.state = other.skippedState)
    (hother : other ≠ .start) :
    t.finish d = .ok ((t.countLine.discardLine.enter .lineStart).enter .finished) := by
  rw [Splitter.finish, endLastLine, ht]
  cases other with
  | start => exact absurd rfl hother
  | _ =>
    simp only [Place.skippedState]
    rw [endLine_skipped d (by rw [ht]; rfl)]
    rfl

/-- The end of the input ends the last record for both, unless a quoted field is open. -/
theorem finish (h : Beside (.skipping lines first) line place [] s t)
    (hs : s.finish (.skipping {} 0) = .ok u) :
    ∃ v, t.finish (.skipping lines first) = .ok v ∧
      v.rows = (Dialect.skipping lines first).kept 0 u.rows ∧
      v.numbers = (Dialect.skipping lines first).kept 0 u.numbers ∧
      v.fileLines = u.fileLines := by
  have hquotes : place ≠ .inQuotes := by
    rintro rfl
    rw [Splitter.finish, endLastLine, h.state] at hs
    cases hs
  obtain ⟨rows, hcount, hcontents⟩ := h.contents
  cases hcontents with
  | between _ _ hstate =>
    have hu : s.finish (.skipping {} 0) = .ok (s.enter .finished) := by
      rw [Splitter.finish, endLastLine, h.state]
      rfl
    have hv : t.finish (.skipping lines first) = .ok (t.enter .finished) := by
      rw [Splitter.finish, endLastLine, hstate]
      rfl
    obtain rfl := Except.ok.inj (hu.symm.trans hs)
    exact ⟨_, hv, h.agree⟩
  | kept hline hopen hsh hth hstate =>
    obtain ⟨hended, hu⟩ := finish_place (d := .skipping {} 0) h.anyWidth.1 h.state hopen hquotes
    obtain ⟨-, hv⟩ := finish_place (d := .skipping lines first) h.anyWidth.2 hstate hopen hquotes
    obtain rfl := Except.ok.inj (hu.symm.trans hs)
    have hnext := h.follow (c := 10) [] hline hcount hsh hth fun heq => absurd heq hopen
    rw [hended] at hnext
    exact ⟨_, hv, hnext.agree⟩
  | skipped hline hopen hsh hth hother hstate _ =>
    obtain ⟨hended, hu⟩ := finish_place (d := .skipping {} 0) h.anyWidth.1 h.state hopen hquotes
    obtain rfl := Except.ok.inj (hu.symm.trans hs)
    have hnext := h.skip (c := 10) [] .start hline hcount hsh hth
      (fun heq => absurd heq hopen) fun hgoes => absurd hended hgoes
    rw [if_pos hended, if_pos hended, hended] at hnext
    exact ⟨_, finish_skipped hstate hother, hnext.agree⟩

end Beside

theorem beside_start (d : Dialect) (headerLines : Nat) (bytes : List UInt8) :
    Beside d 0 .start bytes { headerLines := headerLines, anyWidth := true }
      { headerLines := headerLines, anyWidth := true } where
  state := rfl
  anyWidth := ⟨rfl, rfl⟩
  fileLines := ⟨rfl, rfl⟩
  numbers := rfl
  contents := ⟨[], rfl, .between (holds_empty headerLines true) (holds_empty headerLines true) rfl⟩

end Splitter

/-- If the input can be split without skipping anything, it can be split with any records skipped,
and the other records stay as they are, with their numbers in the file, provided that no record that
is skipped begins with a delimiter which hides where it ends. -/
theorem Session.tokenizeAll_skipping (lines : LineSet) (first : Nat) (headerLines : Nat)
    (chunkSize otherSize : Nat) (feed other : Feed) (hsame : other.content = feed.content)
    (hfailures : feed.failures = 0) (hothers : other.failures = 0)
    (hreturns : ∀ c ∈ feed.content, c ≠ 13)
    (hfinds : (Dialect.skipping lines first).FindsEnds 0 .start
      (Session.withoutMark feed.content)) :
    let p := (Session.start headerLines true chunkSize).tokenizeAll (.skipping {} 0) feed
    let q := (Session.start headerLines true otherSize).tokenizeAll (.skipping lines first) other
    p.fault = none →
      q.fault = none ∧
      q.session.splitter.rows = (Dialect.skipping lines first).kept 0 p.session.splitter.rows ∧
      q.session.splitter.numbers =
        (Dialect.skipping lines first).kept 0 p.session.splitter.numbers ∧
      q.session.splitter.fileLines = p.session.splitter.fileLines := by
  intro p q hfault
  have hp : p.outcome = _ := tokenizeAll_start (.skipping {} 0) headerLines true chunkSize hfailures
  have hq : q.outcome = _ :=
    tokenizeAll_start (.skipping lines first) headerLines true otherSize hothers
  have hbytes : ∀ c ∈ withoutMark feed.content, c ≠ 13 := by
    intro c hc
    rw [withoutMark] at hc
    split_ifs at hc
    · exact hreturns c (List.mem_of_mem_drop hc)
    · exact hreturns c hc
  obtain ⟨line, place, s, t, hs, ht, hbeside⟩ :=
    (Splitter.beside_start (.skipping lines first) headerLines _).readAll hbytes hfinds
  rw [hs, ok_bind] at hp
  rw [hsame, ht, ok_bind] at hq
  -- both splitters stand at the same place of a record, and the end of the input is read there
  cases hu : s.finish (.skipping {} 0) with
  | error halted =>
    rw [hu] at hp
    have hhalted : p.fault = some halted.fault := (Prod.mk.inj hp).1
    rw [hfault] at hhalted
    cases hhalted
  | ok u =>
    obtain ⟨v, hv, hagree⟩ := hbeside.finish hu
    rw [hu] at hp
    rw [hv] at hq
    obtain ⟨-, hp⟩ := Prod.mk.inj hp
    obtain ⟨hqfault, hq⟩ := Prod.mk.inj hq
    refine ⟨hqfault, ?_⟩
    rw [hp, hq]
    exact hagree

/-- A skipped record with a line feed, a delimiter and a quote between quotes, one that begins with a
delimiter, and a record behind them. -/
theorem Session.tokenizeAll_skipping_two :
    let content : List UInt8 :=
      [34, 97, 10, 44, 34, 34, 34, 44, 99, 10, 44, 100, 10, 120, 44, 121, 10]
    let p := (Session.start 0 true 3).tokenizeAll (.skipping {} 0) (.memory content)
    let q := (Session.start 0 true 4).tokenizeAll (.skipping ⟨[1]⟩ 1) (.memory content)
    p.fault = none ∧ q.fault = none ∧
      q.session.splitter.rows = (Dialect.skipping ⟨[1]⟩ 1).kept 0 p.session.splitter.rows ∧
      q.session.splitter.numbers =
        (Dialect.skipping ⟨[1]⟩ 1).kept 0 p.session.splitter.numbers ∧
      q.session.splitter.fileLines = p.session.splitter.fileLines := by
  intro content p q
  have hreturns : ∀ c ∈ content, c ≠ 13 := by decide +kernel
  have hfinds : (Dialect.skipping ⟨[1]⟩ 1).FindsEnds 0 .start (Session.withoutMark content) := by
    decide +kernel
  have hfault : p.fault = none := by decide +kernel
  exact ⟨hfault, Session.tokenizeAll_skipping ⟨[1]⟩ 1 0 3 4 (.memory content) (.memory content) rfl
    rfl rfl hreturns hfinds hfault⟩

/-- A skipped record whose first field is empty ends inside the quotes of the second one, and what is
left of it takes the place of the record behind it. -/
theorem Session.skipped_record_cut :
    let content : List UInt8 := [44, 34, 97, 10, 98, 34, 10, 120, 44, 121, 10]
    let p := (Session.start 0 true 1).tokenizeAll (.skipping {} 0) (.memory content)
    let q := (Session.start 0 true 1).tokenizeAll (.skipping {} 1) (.memory content)
    (∀ c ∈ content, c ≠ 13) ∧ p.fault = none ∧
      p.session.splitter.rows = [[[], [97, 10, 98]], [[120], [121]]] ∧
      p.session.splitter.fileLines = 2 ∧
      q.session.splitter.rows = [[[98, 34]], [[120], [121]]] ∧
      q.session.splitter.fileLines = 3 := by
  decide +kernel

end TypedTable.Csv
