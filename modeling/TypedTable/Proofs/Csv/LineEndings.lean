import Mathlib.Tactic.SplitIfs
import TypedTable.Proofs.Csv.Contents
import TypedTable.Proofs.Csv.Pieces
import TypedTable.Proofs.Csv.Writing

/-!
# Three endings of lines

Lines without quotes and escapes can end in a line feed, in a carriage return or in both. A carriage
return with a line feed behind it is read as the line feed alone. A lone one is settled by the first
byte of the next line, and then that byte is not always read as the first one of a line:
`Dialect.KeepsReturns` has the lines for which it makes no difference.
-/

set_option autoImplicit false

namespace TypedTable.Csv

def LineEnding.write (ending : LineEnding) (lines : List (List UInt8)) : List UInt8 :=
  lines.flatMap (· ++ ending.bytes)

namespace Dialect

/-- Lines end in a line feed, a carriage return or both, and these neither delimit nor quote. -/
structure PlainEndings (d : Dialect) : Prop where
  unset : d.lineTerminator = none
  delimiter : ∀ c ∈ d.endingBytes, d.isDelimiter c = false
  quote : ∀ c ∈ d.endingBytes, d.isQuote c = false

structure Plain (d : Dialect) (c : UInt8) : Prop where
  ending : c ∉ d.endingBytes
  quote : d.isQuote c = false
  escape : d.isEscape c = false

def isHeldBlank (d : Dialect) (c : UInt8) : Bool :=
  isSpaceOrTab c && if d.blankDelimited then !d.isComment c else c != d.delimiter

/-- Whether a line is counted and nothing else: a skipped one, a comment or a blank one. -/
def passesOver (d : Dialect) (line : Nat) (text : List UInt8) : Bool :=
  d.skipsLine line || text.head?.any d.isComment || (d.skipEmptyLines && text.all d.isHeldBlank)

/-- Whether a line that begins with a delimiter is read as if no carriage return came before it.
Behind a line that was passed over the delimiter is lost; behind any other one it closes a first
field whatever the line is. -/
def KeepsDelimiter (d : Dialect) (passed : Bool) (line : Nat) (c : UInt8) (rest : List UInt8) :
    Prop :=
  if passed then
    if d.skipsLine line then rest ≠ []
    else d.blankDelimited = true ∧ d.isComment c = false ∧ rest.head?.any d.isComment = false
  else
    d.passesOver line (c :: rest) = false ∧ d.isInitialSpace c = false

/-- Whether a line is read alike behind a lone carriage return and at the beginning of a line.
`before` says if the line before it, if there is one, was passed over. -/
def KeepsStart (d : Dialect) (before : Option Bool) (line : Nat) (text : List UInt8) : Prop :=
  match before, text with
  | some passed, c :: rest => d.isDelimiter c = true → d.KeepsDelimiter passed line c rest
  | _, _ => True

/-- Whether the lines from number `line` on are read alike with lone carriage returns and with line
feeds at their ends. An empty line that is skipped takes its carriage return for content, which
matters unless it is the last one. -/
def KeepsReturns (d : Dialect) (before : Option Bool) (line : Nat) : List (List UInt8) → Prop
  | [] => True
  | text :: later =>
    (text = [] → d.skipsLine line = true → later = []) ∧ d.KeepsStart before line text ∧
      d.KeepsReturns (some (d.passesOver line text)) (line + 1) later

namespace PlainEndings

variable {d : Dialect}

theorem isTerminator_eq (hd : d.PlainEndings) (c : UInt8) : d.isTerminator c = (c == 10) := by
  rw [isTerminator, hd.unset]
  rfl

theorem isReturn_eq (hd : d.PlainEndings) (c : UInt8) : d.isReturn c = (c == 13) := by
  rw [isReturn, hd.unset]
  rfl

theorem isTerminator_feed (hd : d.PlainEndings) : d.isTerminator 10 = true :=
  (hd.isTerminator_eq 10).trans rfl

theorem isTerminator_return (hd : d.PlainEndings) : d.isTerminator 13 = false :=
  (hd.isTerminator_eq 13).trans rfl

theorem isReturn_return (hd : d.PlainEndings) : d.isReturn 13 = true :=
  (hd.isReturn_eq 13).trans rfl

theorem mem_endingBytes (hd : d.PlainEndings) (c : UInt8) :
    c ∈ d.endingBytes ↔ c = 10 ∨ c = 13 := by
  simp [endingBytes, hd.unset]

end PlainEndings

namespace Plain

variable {d : Dialect} {c : UInt8}

theorem not_terminator (hc : d.Plain c) : d.isTerminator c = false :=
  Writable.not_terminator_of_not_ending hc.ending

theorem not_return (hc : d.Plain c) : d.isReturn c = false :=
  Writable.not_return_of_not_ending hc.ending

theorem ne_feed (hd : d.PlainEndings) (hc : d.Plain c) : c ≠ 10 := by
  intro h
  exact hc.ending ((hd.mem_endingBytes c).2 (.inl h))

end Plain

end Dialect

namespace SplitState

def isOpen : SplitState → Bool
  | .fieldStart | .inField | .betweenFields | .inTrailingComment => true
  | _ => false

def isSkipped : SplitState → Bool
  | .skippedFieldStart | .inSkippedField => true
  | _ => false

def isPassing (state : SplitState) : Bool :=
  state.isSkipped || state == .inCommentLine || state == .inBlanks

end SplitState

namespace Splitter

variable {d : Dialect} {s t : Splitter} {c : UInt8} {text : List UInt8} {line : Nat}

def answer {α : Type} (result : Except (Halted Splitter) α) : Except ReadFault α :=
  result.mapError (·.fault)

theorem answer_bind {α β : Type} (x : Except (Halted Splitter) α)
    (f : α → Except (Halted Splitter) β) :
    answer (x >>= f) = answer x >>= fun a => answer (f a) := by
  cases x <;> rfl

/-! ## Inside a line -/

theorem readByte_enter (s : Splitter) (c : UInt8) {state : SplitState} (h : state ≠ .afterReturn)
    (h' : state ≠ .afterIgnoredReturn) :
    (s.enter state).readByte d c = (s.enter state).accept d c :=
  readByte_of_not_return d c (s.enter state) h h'

theorem readByte_open (hc : d.Plain c) (hs : s.state.isOpen = true) :
    ∃ t, s.readByte d c = .ok t ∧ t.state.isOpen = true ∧ t.fileLines = s.fileLines ∧
      t.heldBlanks = s.heldBlanks := by
  rw [readByte_of_not_return d c s (by intro h; simp [h, SplitState.isOpen] at hs)
    (by intro h; simp [h, SplitState.isOpen] at hs), accept]
  cases hstate : s.state with
  | fieldStart =>
    simp only [readAtFieldStart, hc.not_terminator, hc.not_return, hc.quote, hc.escape,
      Bool.false_eq_true, if_false]
    split_ifs
    all_goals exact ⟨_, rfl, by simp_all [SplitState.isOpen, enter, closeField], rfl, rfl⟩
  | inField =>
    simp only [readInField, hc.not_terminator, hc.not_return, hc.escape, Bool.false_eq_true,
      if_false, afterDelimiter]
    split_ifs
    all_goals exact ⟨_, rfl, by simp_all [SplitState.isOpen, enter, closeField, push], rfl, rfl⟩
  | betweenFields =>
    simp only [readBetweenFields, readAtFieldStart, hc.not_terminator, hc.not_return, hc.quote,
      hc.escape, Bool.false_eq_true, if_false]
    split_ifs
    all_goals exact ⟨_, rfl, by simp_all [SplitState.isOpen, enter, closeField], rfl, rfl⟩
  | inTrailingComment =>
    simp only [readInTrailingComment, hc.not_terminator, hc.not_return, Bool.false_eq_true, if_false]
    exact ⟨_, rfl, hs, rfl, rfl⟩
  | _ => simp [hstate, SplitState.isOpen] at hs

theorem readByte_skipped (hc : d.Plain c) (hs : s.state.isSkipped = true) :
    ∃ state, state.isSkipped = true ∧ s.readByte d c = .ok (s.enter state) := by
  rw [readByte_of_not_return d c s (by intro h; simp [h, SplitState.isSkipped] at hs)
    (by intro h; simp [h, SplitState.isSkipped] at hs), accept]
  have hself : s.enter s.state = s := rfl
  cases hstate : s.state with
  | skippedFieldStart =>
    simp only [readAtSkippedField, hc.not_terminator, hc.not_return, hc.quote, Bool.false_eq_true,
      if_false]
    split_ifs
    · exact ⟨s.state, hs, by rw [hself]⟩
    · exact ⟨_, rfl, rfl⟩
  | inSkippedField =>
    simp only [readInSkippedField, hc.not_terminator, hc.not_return, Bool.false_eq_true, if_false]
    split_ifs
    · exact ⟨_, rfl, rfl⟩
    · exact ⟨s.state, hs, by rw [hself]⟩
  | _ => simp [hstate, SplitState.isSkipped] at hs

theorem readAll_open (ht : ∀ c ∈ text, d.Plain c) (hs : s.state.isOpen = true) :
    ∃ t, s.readAll d text = .ok t ∧ t.state.isOpen = true ∧ t.fileLines = s.fileLines ∧
      t.heldBlanks = s.heldBlanks := by
  induction text generalizing s with
  | nil => exact ⟨s, rfl, hs, rfl, rfl⟩
  | cons c rest ih =>
    obtain ⟨t, hread, hopen, hlines, hheld⟩ := readByte_open (ht c (by simp)) hs
    obtain ⟨u, hu, huopen, hulines, huheld⟩ := ih (fun b hb => ht b (by simp [hb])) hopen
    refine ⟨u, ?_, huopen, hulines.trans hlines, huheld.trans hheld⟩
    rw [readAll_cons, hread, ok_bind, hu]

theorem readAll_skipped (ht : ∀ c ∈ text, d.Plain c) (hs : s.state.isSkipped = true) :
    ∃ state, state.isSkipped = true ∧ s.readAll d text = .ok (s.enter state) := by
  induction text generalizing s with
  | nil => exact ⟨s.state, hs, rfl⟩
  | cons c rest ih =>
    obtain ⟨state, hstate, hread⟩ := readByte_skipped (ht c (by simp)) hs
    obtain ⟨last, hlast, hrest⟩ := ih (s := s.enter state) (fun b hb => ht b (by simp [hb])) hstate
    refine ⟨last, hlast, ?_⟩
    rw [readAll_cons, hread, ok_bind, hrest]
    rfl

theorem readAll_commentLine (ht : ∀ c ∈ text, d.Plain c) (hs : s.state = .inCommentLine) :
    s.readAll d text = .ok s := by
  induction text with
  | nil => rfl
  | cons c rest ih =>
    have hc := ht c (by simp)
    have hread : s.readByte d c = .ok s := by
      rw [readByte_of_not_return d c s (by simp [hs]) (by simp [hs])]
      simp [accept, hs, readInCommentLine, hc.not_terminator, hc.not_return]
    rw [readAll_cons, hread, ok_bind]
    exact ih fun b hb => ht b (by simp [hb])

theorem fileLines_pushes (bytes : List UInt8) (s : Splitter) :
    (bytes.foldl push s).fileLines = s.fileLines := by
  induction bytes generalizing s with
  | nil => rfl
  | cons byte rest ih => exact ih (s.push byte)

theorem releaseBlanks_open (d : Dialect) (s : Splitter) :
    (s.releaseBlanks d).state.isOpen = true ∧ (s.releaseBlanks d).fileLines = s.fileLines := by
  constructor
  · simp only [releaseBlanks, enter]
    split_ifs <;> rfl
  · simp only [releaseBlanks, enter]
    split_ifs <;> exact fileLines_pushes _ _

theorem readAtFieldStart_eq (d : Dialect) (s : Splitter) (c : UInt8) :
    (s.enter .fieldStart).readAtFieldStart d c = (s.enter .fieldStart).readByte d c := by
  rw [readByte_enter s c (by decide) (by decide)]
  rfl

theorem readByte_heldBlank (hc : d.Plain c) (hheld : d.isHeldBlank c = true)
    (hs : s.state = .inBlanks) :
    ∃ blanks, s.readByte d c = .ok { s with heldBlanks := blanks } ∧
      (d.blankDelimited = true → blanks = s.heldBlanks) := by
  rw [Dialect.isHeldBlank, Bool.and_eq_true] at hheld
  have hread : s.readByte d c = s.readInBlanks d c := by
    rw [readByte_of_not_return d c s (by simp [hs]) (by simp [hs]), accept, hs]
  rw [hread]
  simp only [readInBlanks, hc.not_terminator, hc.not_return, Bool.false_eq_true, if_false]
  by_cases hb : d.blankDelimited = true
  · have hcomment : d.isComment c = false := by simpa [hb] using hheld.2
    rw [if_pos hb, hcomment, if_neg (by simp), if_pos hheld.1]
    exact ⟨s.heldBlanks, rfl, fun _ => rfl⟩
  · have hne : c ≠ d.delimiter := by simpa [hb] using hheld.2
    rw [if_neg hb, if_pos ⟨hheld.1, hne⟩]
    exact ⟨_, rfl, fun h => absurd h hb⟩

theorem readByte_after_blanks (hc : d.Plain c) (hheld : d.isHeldBlank c = false)
    (hs : s.state = .inBlanks) :
    ∃ t, s.readByte d c = .ok t ∧ t.state.isOpen = true ∧ t.fileLines = s.fileLines ∧
      (d.blankDelimited = true → t.heldBlanks = s.heldBlanks) := by
  rw [readByte_of_not_return d c s (by simp [hs]) (by simp [hs]), accept, hs]
  simp only [readInBlanks, hc.not_terminator, hc.not_return, Bool.false_eq_true, if_false]
  by_cases hb : d.blankDelimited = true
  · rw [if_pos hb]
    by_cases hcomment : d.isComment c = true
    · rw [if_pos hcomment]
      exact ⟨_, rfl, rfl, rfl, fun _ => rfl⟩
    · have hblank : Dialect.isSpaceOrTab c = false := by
        simpa [Dialect.isHeldBlank, hb, hcomment] using hheld
      rw [if_neg hcomment, hblank, if_neg (by simp), readAtFieldStart_eq]
      obtain ⟨t, ht, hopen, hlines, hkept⟩ := readByte_open (s := s.enter .fieldStart) hc rfl
      exact ⟨t, ht, hopen, hlines, fun _ => hkept⟩
  · have hcontent : ¬ (Dialect.isSpaceOrTab c = true ∧ c ≠ d.delimiter) := by
      simpa [Dialect.isHeldBlank, hb] using hheld
    obtain ⟨hopen, hlines⟩ := releaseBlanks_open d s
    rw [if_neg hb, if_neg hcontent]
    have hread : (if (s.releaseBlanks d).state = .inField then (s.releaseBlanks d).readInField d c
        else (s.releaseBlanks d).readAtFieldStart d c) = (s.releaseBlanks d).readByte d c := by
      rw [readByte_of_not_return d c _ (by intro h; simp [h, SplitState.isOpen] at hopen)
        (by intro h; simp [h, SplitState.isOpen] at hopen), accept]
      have hstate : (s.releaseBlanks d).state = .inField ∨
          (s.releaseBlanks d).state = .fieldStart := by
        simp only [releaseBlanks, enter]
        split_ifs <;> simp
      rcases hstate with hstate | hstate <;> simp [hstate]
    rw [hread]
    obtain ⟨t, ht, htopen, htlines, -⟩ := readByte_open hc hopen
    exact ⟨t, ht, htopen, htlines.trans hlines, fun h => absurd h hb⟩

theorem readAll_blanks (ht : ∀ c ∈ text, d.Plain c) (hs : s.state = .inBlanks) :
    ∃ t, s.readAll d text = .ok t ∧
      (if text.all d.isHeldBlank then t.state = .inBlanks else t.state.isOpen = true) ∧
      t.fileLines = s.fileLines ∧ (d.blankDelimited = true → t.heldBlanks = s.heldBlanks) := by
  induction text generalizing s with
  | nil => exact ⟨s, rfl, by simpa using hs, rfl, fun _ => rfl⟩
  | cons c rest ih =>
    have hrest : ∀ b ∈ rest, d.Plain b := fun b hb => ht b (by simp [hb])
    rw [readAll_cons, List.all_cons]
    by_cases hheld : d.isHeldBlank c = true
    · obtain ⟨blanks, hread, hkept⟩ := readByte_heldBlank (ht c (by simp)) hheld hs
      obtain ⟨u, hu, hstate, hlines, huheld⟩ := ih (s := { s with heldBlanks := blanks }) hrest hs
      refine ⟨u, ?_, by simpa [hheld] using hstate, hlines, fun hb => ?_⟩
      · rw [hread, ok_bind, hu]
      · rw [huheld hb, hkept hb]
    · have hheld : d.isHeldBlank c = false := Bool.eq_false_iff.2 hheld
      obtain ⟨t, hread, hopen, hlines, hkept⟩ := readByte_after_blanks (ht c (by simp)) hheld hs
      obtain ⟨u, hu, huopen, hulines, huheld⟩ := readAll_open hrest hopen
      refine ⟨u, ?_, by simpa [hheld] using huopen, hulines.trans hlines, fun hb => ?_⟩
      · rw [hread, ok_bind, hu]
      · rw [huheld, hkept hb]

/-! ## Whole lines -/

theorem readAll_singleton (d : Dialect) (c : UInt8) (s : Splitter) :
    s.readAll d [c] = s.readByte d c := by
  rw [readAll_cons]
  exact bind_pure _

structure AtLine (d : Dialect) (line : Nat) (s : Splitter) : Prop where
  state : s.state = .lineStart
  fileLines : s.fileLines = line
  heldBlanks : d.blankDelimited = true → s.heldBlanks = #[]

namespace AtLine

theorem readByte_eq (hs : s.AtLine d line) (c : UInt8) :
    s.readByte d c = s.readAtLineStart d c := by
  rw [readByte_of_not_return d c s (by simp [hs.state]) (by simp [hs.state]), accept, hs.state]

theorem readAtLineStart_skipped (hs : s.AtLine d line) (hc : d.Plain c)
    (hskips : d.skipsLine line = true) :
    s.readAtLineStart d c = .ok (s.enter .inSkippedField) := by
  simp [readAtLineStart, readAtSkippedLine, hs.fileLines, hskips, hc.quote, hc.not_terminator]

theorem readAtLineStart_comment (hs : s.AtLine d line) (hc : d.Plain c)
    (hskips : d.skipsLine line = false) (hcomment : d.isComment c = true) :
    s.readAtLineStart d c = .ok (s.enter .inCommentLine) := by
  simp [readAtLineStart, hs.fileLines, hskips, hc.not_terminator, hc.not_return, hcomment]

theorem readAtLineStart_blank (hs : s.AtLine d line) (hc : d.Plain c)
    (hskips : d.skipsLine line = false) (hcomment : d.isComment c = false)
    (hempty : d.skipEmptyLines = true) (hheld : d.isHeldBlank c = true) :
    ∃ blanks, s.readAtLineStart d c = .ok ({ s with heldBlanks := blanks }.enter .inBlanks) ∧
      (d.blankDelimited = true → blanks = s.heldBlanks) := by
  rw [Dialect.isHeldBlank, Bool.and_eq_true] at hheld
  have hskips : d.skipsLine s.fileLines = false := hs.fileLines ▸ hskips
  simp only [readAtLineStart, hskips, hc.not_terminator, hc.not_return, hcomment,
    hheld.1, hempty, Bool.false_eq_true, if_false, if_true, and_true]
  by_cases hb : d.blankDelimited = true
  · rw [if_pos hb]
    exact ⟨s.heldBlanks, rfl, fun _ => rfl⟩
  · have hne : c ≠ d.delimiter := by simpa [hb] using hheld.2
    rw [if_neg hb, if_pos hne]
    exact ⟨_, rfl, fun h => absurd h hb⟩

theorem readAtLineStart_open (hs : s.AtLine d line) (hc : d.Plain c)
    (hskips : d.skipsLine line = false) (hcomment : d.isComment c = false)
    (hcontent : d.skipEmptyLines = true → d.isHeldBlank c = false) :
    ∃ t, s.readAtLineStart d c = .ok t ∧ t.state.isOpen = true ∧ t.fileLines = line ∧
      t.heldBlanks = s.heldBlanks := by
  have hfield : ∃ t, (s.enter .fieldStart).readAtFieldStart d c = .ok t ∧ t.state.isOpen = true ∧
      t.fileLines = line ∧ t.heldBlanks = s.heldBlanks := by
    rw [readAtFieldStart_eq, ← hs.fileLines]
    exact readByte_open (s := s.enter .fieldStart) hc rfl
  have hskips : d.skipsLine s.fileLines = false := hs.fileLines ▸ hskips
  simp only [readAtLineStart, hskips, hc.not_terminator, hc.not_return, hcomment,
    Bool.false_eq_true, if_false]
  by_cases hblank : Dialect.isSpaceOrTab c = true
  · rw [if_pos hblank]
    by_cases hb : d.blankDelimited = true
    · have hempty : d.skipEmptyLines = false := Bool.eq_false_iff.2 fun h => by
        simpa [Dialect.isHeldBlank, hblank, hb, hcomment] using hcontent h
      rw [if_pos hb, hempty]
      exact ⟨_, rfl, rfl, hs.fileLines, rfl⟩
    · have hdelimiter : ¬ (c ≠ d.delimiter ∧ d.skipEmptyLines = true) := by
        intro h
        simpa [Dialect.isHeldBlank, hblank, hb, h.1] using hcontent h.2
      rw [if_neg hb, if_neg hdelimiter]
      exact hfield
  · rw [if_neg hblank]
    exact hfield

/-- The state that a line which is not empty is left in says whether it is going to be passed
over. -/
theorem readAll_text (hs : s.AtLine d line) (ht : ∀ c ∈ text, d.Plain c) (hn : text ≠ []) :
    ∃ t, s.readAll d text = .ok t ∧
      (if d.passesOver line text then t.state.isPassing = true else t.state.isOpen = true) ∧
      t.fileLines = line ∧ (d.blankDelimited = true → t.heldBlanks = #[]) := by
  cases text with
  | nil => exact absurd rfl hn
  | cons c rest =>
    have hc := ht c (by simp)
    have hrest : ∀ b ∈ rest, d.Plain b := fun b hb => ht b (by simp [hb])
    rw [readAll_cons, hs.readByte_eq]
    -- the first byte decides; where it is a blank that may not count, the rest of the line does
    by_cases hskips : d.skipsLine line = true
    · obtain ⟨state, hstate, hread⟩ := readAll_skipped (s := s.enter .inSkippedField) hrest rfl
      rw [hs.readAtLineStart_skipped hc hskips, ok_bind, hread]
      refine ⟨_, rfl, ?_, hs.fileLines, hs.heldBlanks⟩
      simp [Dialect.passesOver, hskips, SplitState.isPassing, enter, hstate]
    have hskips : d.skipsLine line = false := Bool.eq_false_iff.2 hskips
    by_cases hcomment : d.isComment c = true
    · rw [hs.readAtLineStart_comment hc hskips hcomment, ok_bind, readAll_commentLine hrest rfl]
      refine ⟨_, rfl, ?_, hs.fileLines, hs.heldBlanks⟩
      simp [Dialect.passesOver, hcomment, SplitState.isPassing, enter]
    have hcomment : d.isComment c = false := Bool.eq_false_iff.2 hcomment
    by_cases hblank : d.skipEmptyLines = true ∧ d.isHeldBlank c = true
    · obtain ⟨blanks, hread, hkept⟩ := hs.readAtLineStart_blank hc hskips hcomment hblank.1 hblank.2
      obtain ⟨t, ht, hstate, hlines, hheld⟩ :=
        readAll_blanks (s := { s with heldBlanks := blanks }.enter .inBlanks) hrest rfl
      rw [hread, ok_bind, ht]
      refine ⟨t, rfl, ?_, hlines.trans hs.fileLines, fun hb => ?_⟩
      · simp only [Dialect.passesOver, hskips, hcomment, hblank.1, hblank.2, List.head?_cons,
          Option.any_some, Bool.or_self, Bool.false_or, Bool.true_and, List.all_cons]
        split_ifs at hstate ⊢
        · simp [SplitState.isPassing, hstate]
        · exact hstate
      · rw [hheld hb]
        exact (hkept hb).trans (hs.heldBlanks hb)
    · have hcontent : d.skipEmptyLines = true → d.isHeldBlank c = false := by
        simpa using hblank
      obtain ⟨t, hread, hopen, hlines, hheld⟩ :=
        hs.readAtLineStart_open hc hskips hcomment hcontent
      obtain ⟨u, hu, huopen, hulines, huheld⟩ := readAll_open hrest hopen
      rw [hread, ok_bind, hu]
      refine ⟨u, rfl, ?_, hulines.trans hlines, fun hb => ?_⟩
      · have hpasses : d.passesOver line (c :: rest) = false := by
          by_cases he : d.skipEmptyLines = true
          · simp [Dialect.passesOver, hskips, hcomment, hcontent he]
          · simp [Dialect.passesOver, hskips, hcomment, he]
        simpa [hpasses] using huopen
      · rw [huheld, hheld, hs.heldBlanks hb]

end AtLine

/-! ## The end of a line -/

theorem closeFields_enter (s : Splitter) (state : SplitState) (count : Nat) :
    (s.enter state).closeFields count = (s.closeFields count).enter state := by
  induction count generalizing s with
  | zero => rfl
  | succ count ih => exact ih s.closeField

theorem endLineTo_enter (d : Dialect) {state : SplitState} (last : SplitState)
    (hs : s.state.isSkipping = false) (hstate : state.isSkipping = false) :
    answer ((s.enter state).endLineTo d last) = answer (s.endLineTo d last) := by
  have hrequired : (s.enter state).requiredFields d = s.requiredFields d := rfl
  rw [endLineTo, endLineTo, endLine, endLine, if_neg (by simp [enter, hstate]),
    if_neg (by simp [hs]), hrequired]
  cases s.requiredFields d with
  | none => rfl
  | some expected =>
    have hopen : (s.enter state).openFields = s.openFields := rfl
    have hstream : (s.enter state).stream = s.stream := rfl
    simp only [hopen]
    by_cases hwide : expected < s.openFields
    · simp only [if_pos hwide, rejectLine]
      cases d.onBadLines <;> rfl
    · simp only [if_neg hwide, padLine]
      by_cases hfull : expected - s.openFields = 0
      · simp only [if_pos hfull]
        rfl
      · simp only [if_neg hfull, hstream]
        cases s.stream.checkRoom (expected - s.openFields) with
        | error fault => rfl
        | ok u =>
          dsimp only
          rw [closeFields_enter]
          rfl

/-- What becomes of the lines before the next one: a line with a carriage return at its end is still
to be ended if it was not passed over. -/
def due (d : Dialect) (s : Splitter) : Except (Halted Splitter) Splitter :=
  if s.state = .afterReturn then s.endLineTo d .lineStart else .ok (s.enter .lineStart)

theorem due_of_return (hs : s.state = .afterReturn) : s.due d = s.endLineTo d .lineStart :=
  if_pos hs

theorem due_of_ignored (hs : s.state = .afterIgnoredReturn) :
    s.due d = .ok (s.enter .lineStart) := by
  rw [due, if_neg (by simp [hs])]

theorem due_of_line (hs : s.state = .lineStart) : s.due d = .ok s := by
  rw [due, if_neg (by simp [hs]), enter, ← hs]

theorem answer_endings_open (hd : d.PlainEndings) (hs : s.state.isOpen = true) :
    ∃ t, s.readByte d 13 = .ok t ∧ t.state = .afterReturn ∧ t.fileLines = s.fileLines ∧
      t.heldBlanks = s.heldBlanks ∧ answer (s.readByte d 10) = answer (t.due d) := by
  have hread (c : UInt8) : s.readByte d c = s.accept d c :=
    readByte_of_not_return d c s (by intro h; simp [h, SplitState.isOpen] at hs)
      (by intro h; simp [h, SplitState.isOpen] at hs)
  have hskipping : s.state.isSkipping = false := by
    cases hstate : s.state <;> simp_all [SplitState.isOpen, SplitState.isSkipping]
  have hdue (u : Splitter) (hu : u.state = s.state) :
      answer (u.endLineTo d .lineStart) = answer ((u.enter .afterReturn).due d) := by
    rw [due_of_return rfl]
    exact (endLineTo_enter d .lineStart (hu ▸ hskipping) rfl).symm
  rw [hread, hread, accept, accept]
  cases hstate : s.state with
  | fieldStart =>
    refine ⟨s.closeField.enter .afterReturn, ?_, rfl, rfl, rfl, ?_⟩
    · simp [readAtFieldStart, hd.isTerminator_return, hd.isReturn_return]
    · rw [← hdue s.closeField rfl]
      simp [readAtFieldStart, hd.isTerminator_feed]
  | inField =>
    refine ⟨s.closeField.enter .afterReturn, ?_, rfl, rfl, rfl, ?_⟩
    · simp [readInField, hd.isTerminator_return, hd.isReturn_return]
    · rw [← hdue s.closeField rfl]
      simp [readInField, hd.isTerminator_feed]
  | betweenFields =>
    refine ⟨s.enter .afterReturn, ?_, rfl, rfl, rfl, ?_⟩
    · simp [readBetweenFields, hd.isTerminator_return, hd.isReturn_return]
    · rw [← hdue s rfl]
      simp [readBetweenFields, hd.isTerminator_feed]
  | inTrailingComment =>
    refine ⟨s.enter .afterReturn, ?_, rfl, rfl, rfl, ?_⟩
    · simp [readInTrailingComment, hd.isTerminator_return, hd.isReturn_return]
    · rw [← hdue s rfl]
      simp [readInTrailingComment, hd.isTerminator_feed]
  | _ => simp [hstate, SplitState.isOpen] at hs

theorem readByte_endings_passing (hd : d.PlainEndings) (hs : s.state.isPassing = true) :
    ∃ t, s.readByte d 13 = .ok t ∧ t.state = .afterIgnoredReturn ∧ t.fileLines = s.fileLines + 1 ∧
      (s.heldBlanks = #[] → t.heldBlanks = #[]) ∧ s.readByte d 10 = t.due d := by
  have hread (c : UInt8) : s.readByte d c = s.accept d c :=
    readByte_of_not_return d c s
      (by intro h; simp [h, SplitState.isPassing, SplitState.isSkipped] at hs)
      (by intro h; simp [h, SplitState.isPassing, SplitState.isSkipped] at hs)
  rw [hread, hread, accept, accept]
  cases hstate : s.state with
  | inCommentLine =>
    refine ⟨s.countLine.enter .afterIgnoredReturn, ?_, rfl, rfl, id, ?_⟩
    · simp [readInCommentLine, hd.isTerminator_return, hd.isReturn_return]
    · simp [readInCommentLine, hd.isTerminator_feed, due, enter]
  | inBlanks =>
    refine ⟨{ s.countLine with heldBlanks := #[] }.enter .afterIgnoredReturn, ?_, rfl, rfl,
      fun _ => rfl, ?_⟩
    · simp [readInBlanks, hd.isTerminator_return, hd.isReturn_return]
    · simp [readInBlanks, hd.isTerminator_feed, due, enter]
  | skippedFieldStart =>
    refine ⟨s.returnFromSkipped, ?_, rfl, rfl, id, ?_⟩
    · simp [readAtSkippedField, hd.isTerminator_return, hd.isReturn_return]
    · simp [readAtSkippedField, hd.isTerminator_feed, due, returnFromSkipped, endLineTo, endLine,
        hstate, SplitState.isSkipping, enter]
  | inSkippedField =>
    refine ⟨s.returnFromSkipped, ?_, rfl, rfl, id, ?_⟩
    · simp [readInSkippedField, hd.isTerminator_return, hd.isReturn_return]
    · simp [readInSkippedField, hd.isTerminator_feed, due, returnFromSkipped, endLineTo, endLine,
        hstate, SplitState.isSkipping, enter]
  | _ => simp [hstate, SplitState.isPassing, SplitState.isSkipped] at hs

/-- The lines before line number `line` were read, the last of them with its carriage return. -/
structure Behind (d : Dialect) (before : Option Bool) (line : Nat) (t : Splitter) : Prop where
  state : t.state =
    match before with
    | none => .lineStart
    | some true => .afterIgnoredReturn
    | some false => .afterReturn
  atLine : ∀ s, t.due d = .ok s → s.AtLine d line

theorem Behind.of_return (hstate : s.state = .afterReturn) (hlines : s.fileLines = line)
    (hheld : d.blankDelimited = true → s.heldBlanks = #[]) :
    s.Behind d (some false) (line + 1) := by
  refine ⟨hstate, fun t ht => ?_⟩
  rw [due_of_return hstate] at ht
  obtain ⟨u, hu, ht⟩ := bind_eq_ok_iff.1 ht
  cases ht
  have hended := ended_of_endLine hu
  exact ⟨rfl, hended.fileLines.trans (congrArg (· + 1) hlines),
    fun hb => hended.heldBlanks.trans (hheld hb)⟩

theorem Behind.of_ignored (hstate : s.state = .afterIgnoredReturn)
    (hlines : s.fileLines = line + 1) (hheld : d.blankDelimited = true → s.heldBlanks = #[]) :
    s.Behind d (some true) (line + 1) := by
  refine ⟨hstate, fun t ht => ?_⟩
  rw [due_of_ignored hstate] at ht
  cases ht
  exact ⟨rfl, hlines, hheld⟩

/-- A line that is no empty skipped one ends alike with either byte, at once or with the next. -/
theorem AtLine.readAll_ended (hs : s.AtLine d line) (hd : d.PlainEndings)
    (ht : ∀ c ∈ text, d.Plain c) (hskips : text = [] → d.skipsLine line = false) :
    ∃ t, s.readAll d (text ++ [13]) = .ok t ∧
      t.Behind d (some (d.passesOver line text)) (line + 1) ∧
      answer (s.readAll d (text ++ [10])) = answer (t.due d) := by
  by_cases hn : text = []
  · subst hn
    have hskips : d.skipsLine s.fileLines = false := hs.fileLines ▸ hskips rfl
    have hpasses : d.passesOver line [] = d.skipEmptyLines := by
      simp [Dialect.passesOver, ← hs.fileLines, hskips]
    rw [hpasses, List.nil_append, List.nil_append, readAll_singleton, readAll_singleton,
      hs.readByte_eq, hs.readByte_eq]
    simp only [readAtLineStart, hskips, hd.isTerminator_return, hd.isReturn_return,
      hd.isTerminator_feed, Bool.false_eq_true, if_false, if_true]
    cases hempty : d.skipEmptyLines with
    | true =>
      refine ⟨_, rfl, .of_ignored rfl (congrArg (· + 1) hs.fileLines) hs.heldBlanks, ?_⟩
      rw [due_of_ignored rfl]
      simp [countLine, enter, hs.state]
    | false =>
      refine ⟨_, rfl, .of_return rfl hs.fileLines hs.heldBlanks, ?_⟩
      rw [due_of_return rfl]
      have hskipping : s.state.isSkipping = false := by rw [hs.state]; rfl
      simpa using (endLineTo_enter d .lineStart hskipping rfl).symm
  · obtain ⟨t, hread, hstate, hlines, hheld⟩ := hs.readAll_text ht hn
    have hboth (c : UInt8) : s.readAll d (text ++ [c]) = t.readByte d c := by
      rw [readAll_append, hread, ok_bind, readAll_singleton]
    rw [hboth, hboth]
    cases hpasses : d.passesOver line text with
    | true =>
      rw [hpasses, if_pos rfl] at hstate
      obtain ⟨u, hu, hustate, hulines, huheld, hfeed⟩ := readByte_endings_passing hd hstate
      exact ⟨u, hu, .of_ignored hustate (by rw [hulines, hlines]) fun hb => huheld (hheld hb),
        by rw [hfeed]⟩
    | false =>
      rw [hpasses, if_neg (by simp)] at hstate
      obtain ⟨u, hu, hustate, hulines, huheld, hfeed⟩ := answer_endings_open hd hstate
      exact ⟨u, hu, .of_return hustate (hulines.trans hlines) fun hb => huheld.trans (hheld hb),
        hfeed⟩

/-! ## The beginning of the next line -/

namespace Behind

variable {before : Option Bool}

/-- A byte that is no delimiter begins the next line whatever is in front of it. -/
theorem readByte_eq (ht : t.Behind d before line) (hfeed : c ≠ 10)
    (hdelimiter : d.isDelimiter c = false) :
    t.readByte d c = t.due d >>= fun s => s.readByte d c := by
  rcases before with _ | _ | _
  · rw [due_of_line ht.state, ok_bind]
  · rw [readByte_afterReturn d c t ht.state, if_neg hfeed, if_neg (by simp [hdelimiter]),
      due_of_return ht.state, hdelimiter, if_neg (by simp), endLineTo, bind_assoc, bind_assoc]
    congr 1
  · rw [readByte_afterIgnoredReturn d c t ht.state, if_neg (by simp [hfeed, hdelimiter]),
      due_of_ignored ht.state, ok_bind, readByte_enter t c (by decide) (by decide)]

/-- With blanks for delimiters a blank line under construction is like a line between two fields if
it does not stay blank. -/
theorem readAll_inBlanks (hb : d.blankDelimited = true) (ht : ∀ c ∈ text, d.Plain c)
    (hcontent : text.all d.isHeldBlank = false) (later : List UInt8) :
    (s.enter .inBlanks).readAll d (text ++ later) =
      (s.enter .betweenFields).readAll d (text ++ later) := by
  induction text with
  | nil => simp at hcontent
  | cons c rest ih =>
    have hc := ht c (by simp)
    have hreads : (s.enter .inBlanks).readByte d c = (s.enter .inBlanks).readInBlanks d c ∧
        (s.enter .betweenFields).readByte d c = (s.enter .betweenFields).readBetweenFields d c := by
      constructor
      · exact readByte_enter s c (by decide) (by decide)
      · exact readByte_enter s c (by decide) (by decide)
    rw [List.cons_append, readAll_cons, readAll_cons, hreads.1, hreads.2]
    simp only [readInBlanks, readBetweenFields, hc.not_terminator, hc.not_return, hb,
      Bool.false_eq_true, if_false, if_true]
    by_cases hcomment : d.isComment c = true
    · rw [if_pos hcomment, if_pos hcomment]
      rfl
    · rw [if_neg hcomment, if_neg hcomment]
      by_cases hblank : Dialect.isSpaceOrTab c = true
      · have hheld : d.isHeldBlank c = true := by simp [Dialect.isHeldBlank, hblank, hb, hcomment]
        rw [List.all_cons, hheld, Bool.true_and] at hcontent
        rw [if_pos hblank, if_pos hblank, ok_bind, ok_bind]
        exact ih (fun b h => ht b (by simp [h])) hcontent
      · rw [if_neg hblank, if_neg hblank]
        rfl

theorem readAll_delimiter (ht : t.Behind d (some false) line) (hplain : ∀ b ∈ c :: text, d.Plain b)
    (hfeed : c ≠ 10) (hdelimiter : d.isDelimiter c = true)
    (hkeeps : d.KeepsDelimiter false line c text) (later : List UInt8) :
    t.readAll d (c :: text ++ later) = t.due d >>= fun s => s.readAll d (c :: text ++ later) := by
  have hc := hplain c (by simp)
  obtain ⟨hpasses, hinitial⟩ := hkeeps
  have hpasses : (d.skipsLine line = false ∧ d.isComment c = false) ∧
      (d.skipEmptyLines = true → (c :: text).all d.isHeldBlank = false) := by
    simpa [Dialect.passesOver] using hpasses
  obtain ⟨⟨hskips, hcomment⟩, hcontent⟩ := hpasses
  rw [List.cons_append, readAll_cons, readByte_afterReturn d c t ht.state, if_neg hfeed]
  cases hended : t.endLine d with
  | error halted =>
    rw [due_of_return ht.state]
    simp only [endLineTo, hended]
    split_ifs <;> rfl
  | ok u =>
    have hdue : t.due d = .ok (u.enter .lineStart) := by
      rw [due_of_return ht.state, endLineTo, hended]
      rfl
    have hs : (u.enter .lineStart).AtLine d line := ht.atLine _ hdue
    have hskips : d.skipsLine (u.enter .lineStart).fileLines = false := hs.fileLines ▸ hskips
    rw [hdue, ok_bind, readAll_cons, hs.readByte_eq]
    simp only [endLineTo, hended, ok_bind, pure_eq_ok, readAtLineStart, hskips, hcomment,
      hc.not_terminator, hc.not_return, hdelimiter, true_and, if_true, Bool.false_eq_true, if_false]
    -- a blank that delimits begins no field here, any other delimiter closes an empty one
    cases hb : d.blankDelimited with
    | false =>
      have hnone : c = d.delimiter := by simpa [Dialect.isDelimiter, hb] using hdelimiter
      have hfield : ((u.enter .lineStart).enter .fieldStart).readAtFieldStart d c =
          .ok (u.enter .fieldStart).closeField := by
        simp [readAtFieldStart, hc.not_terminator, hc.not_return, hc.quote, hc.escape, hinitial,
          hdelimiter, hb, enter]
      simp [hfield, hnone.symm]
    | true =>
      have hblank : Dialect.isSpaceOrTab c = true := by
        simpa [Dialect.isDelimiter, hb] using hdelimiter
      have hbetween : (u.enter .betweenFields).accept d c = .ok (u.enter .betweenFields) := by
        simp [accept, enter, readBetweenFields, hc.not_terminator, hc.not_return, hcomment, hblank]
      simp only [hbetween, hblank, Bool.not_true, Bool.false_eq_true, if_false, if_true, ok_bind]
      cases hempty : d.skipEmptyLines with
      | false => rfl
      | true =>
        have hheld : d.isHeldBlank c = true := by simp [Dialect.isHeldBlank, hblank, hb, hcomment]
        have hcontent : text.all d.isHeldBlank = false := by
          simpa [hheld] using hcontent hempty
        exact (readAll_inBlanks hb (fun b h => hplain b (by simp [h])) hcontent later).symm

theorem readAll_skippedLine (hs : s.AtLine d line) (hd : d.PlainEndings)
    (hplain : ∀ b ∈ text, d.Plain b) (hskips : d.skipsLine line = true) (hn : text ≠ []) :
    s.readAll d (text ++ [13]) = .ok s.returnFromSkipped := by
  cases text with
  | nil => exact absurd rfl hn
  | cons b more =>
    have hmore : ∀ a ∈ more, d.Plain a := fun a h => hplain a (by simp [h])
    obtain ⟨state, hstate, hread⟩ := readAll_skipped (s := s.enter .inSkippedField) hmore rfl
    rw [List.cons_append, readAll_cons, hs.readByte_eq,
      hs.readAtLineStart_skipped (hplain b (by simp)) hskips, ok_bind, readAll_append, hread,
      ok_bind, readAll_singleton]
    cases state with
    | skippedFieldStart =>
      rw [readByte_enter _ 13 (by decide) (by decide)]
      simp [accept, enter, readAtSkippedField, hd.isTerminator_return, hd.isReturn_return,
        returnFromSkipped, countLine, discardLine]
    | inSkippedField =>
      rw [readByte_enter _ 13 (by decide) (by decide)]
      simp [accept, enter, readInSkippedField, hd.isTerminator_return, hd.isReturn_return,
        returnFromSkipped, countLine, discardLine]
    | _ => simp [SplitState.isSkipped] at hstate

/-- With blanks for delimiters a blank in front of a line that is not skipped changes nothing. -/
theorem readAll_leadingBlank (hs : s.AtLine d line) (hd : d.PlainEndings)
    (hplain : ∀ b ∈ c :: text, d.Plain b) (hskips : d.skipsLine line = false)
    (hb : d.blankDelimited = true) (hblank : Dialect.isSpaceOrTab c = true)
    (hcomment : d.isComment c = false) (hhead : text.head?.any d.isComment = false) :
    s.readAll d (text ++ [13]) = s.readAll d (c :: text ++ [13]) := by
  have hc := hplain c (by simp)
  have hskips : d.skipsLine s.fileLines = false := hs.fileLines ▸ hskips
  have hdropped : s.readByte d c =
      .ok (s.enter (if d.skipEmptyLines then .inBlanks else .betweenFields)) := by
    rw [hs.readByte_eq]
    simp [readAtLineStart, hskips, hc.not_terminator, hc.not_return, hcomment, hblank, hb]
  rw [List.cons_append, readAll_cons, hdropped, ok_bind]
  cases text with
  | nil =>
    rw [List.nil_append, readAll_singleton, readAll_singleton, hs.readByte_eq]
    cases hempty : d.skipEmptyLines with
    | false =>
      rw [if_neg (by simp), readByte_enter _ 13 (by decide) (by decide)]
      simp [readAtLineStart, hskips, hd.isTerminator_return, hd.isReturn_return, hempty, accept,
        readBetweenFields, enter]
    | true =>
      rw [if_pos rfl, readByte_enter _ 13 (by decide) (by decide)]
      simp [readAtLineStart, hskips, hd.isTerminator_return, hd.isReturn_return, hempty, accept,
        readInBlanks, enter, countLine, hs.heldBlanks hb]
  | cons b more =>
    have hplain := hplain b (by simp)
    have hhead : d.isComment b = false := by simpa using hhead
    have hsame : s.readByte d b =
        (s.enter (if d.skipEmptyLines then .inBlanks else .betweenFields)).readByte d b := by
      rw [hs.readByte_eq]
      cases hempty : d.skipEmptyLines with
      | false =>
        rw [if_neg (by simp), readByte_enter _ b (by decide) (by decide)]
        simp [readAtLineStart, hskips, hplain.not_terminator, hplain.not_return, hhead, hempty,
          accept, readBetweenFields, enter, hb]
      | true =>
        rw [if_pos rfl, readByte_enter _ b (by decide) (by decide)]
        simp [readAtLineStart, hskips, hplain.not_terminator, hplain.not_return, hhead, hempty,
          accept, readInBlanks, enter, hb]
    rw [List.cons_append, readAll_cons, readAll_cons, hsame]

theorem readAll_lostDelimiter (hs : s.AtLine d line) (hd : d.PlainEndings)
    (hplain : ∀ b ∈ c :: text, d.Plain b) (hdelimiter : d.isDelimiter c = true)
    (hkeeps : d.KeepsDelimiter true line c text) :
    s.readAll d (text ++ [13]) = s.readAll d (c :: text ++ [13]) := by
  rw [Dialect.KeepsDelimiter, if_pos rfl] at hkeeps
  by_cases hskips : d.skipsLine line = true
  · rw [if_pos hskips] at hkeeps
    rw [readAll_skippedLine hs hd (fun b h => hplain b (by simp [h])) hskips hkeeps,
      readAll_skippedLine hs hd hplain hskips (by simp)]
  · rw [if_neg hskips] at hkeeps
    obtain ⟨hb, hcomment, hhead⟩ := hkeeps
    have hblank : Dialect.isSpaceOrTab c = true := by
      simpa [Dialect.isDelimiter, hb] using hdelimiter
    exact readAll_leadingBlank hs hd hplain (Bool.eq_false_iff.2 hskips) hb hblank hcomment hhead

theorem readAll_line (ht : t.Behind d before line) (hd : d.PlainEndings)
    (hplain : ∀ c ∈ text, d.Plain c) (hkeeps : d.KeepsStart before line text) :
    t.readAll d (text ++ [13]) = t.due d >>= fun s => s.readAll d (text ++ [13]) := by
  cases text with
  | nil =>
    have hdelimiter : d.isDelimiter 13 = false :=
      hd.delimiter 13 ((hd.mem_endingBytes 13).2 (.inr rfl))
    rw [List.nil_append, readAll_singleton, ht.readByte_eq (by decide) hdelimiter]
    simp only [readAll_singleton]
  | cons c rest =>
    have hfeed : c ≠ 10 := (hplain c (by simp)).ne_feed hd
    by_cases hdelimiter : d.isDelimiter c = true
    · rcases before with _ | _ | _
      · rw [due_of_line ht.state, ok_bind]
      · exact ht.readAll_delimiter hplain hfeed hdelimiter (hkeeps hdelimiter) [13]
      · have hdue := due_of_ignored (d := d) ht.state
        rw [hdue, ok_bind,
          ← readAll_lostDelimiter (ht.atLine _ hdue) hd hplain hdelimiter (hkeeps hdelimiter),
          List.cons_append, readAll_cons, readByte_afterIgnoredReturn d c t ht.state,
          if_pos (.inr hdelimiter), ok_bind]
    · rw [List.cons_append, readAll_cons,
        ht.readByte_eq hfeed (Bool.eq_false_iff.2 hdelimiter), bind_assoc]
      simp only [readAll_cons]

/-- An empty line that is skipped has its carriage return for content. If the input ends there, it
counts all the same. -/
theorem answer_skippedLast (ht : t.Behind d before line) (hd : d.PlainEndings)
    (hskips : d.skipsLine line = true) :
    answer (t.readAll d [13] >>= finish d) =
      answer (t.due d >>= fun s => s.readAll d [10] >>= finish d) := by
  rw [← List.nil_append [(13 : UInt8)], ht.readAll_line hd (by simp) (by cases before <;> trivial)]
  cases hdue : t.due d with
  | error halted => rfl
  | ok s =>
    have hs := ht.atLine s hdue
    have hskips : d.skipsLine s.fileLines = true := hs.fileLines ▸ hskips
    have hquote (c : UInt8) (hc : c = 10 ∨ c = 13) : d.isQuote c = false :=
      hd.quote c ((hd.mem_endingBytes c).2 hc)
    simp only [ok_bind, List.nil_append, readAll_singleton, hs.readByte_eq]
    simp [readAtLineStart, readAtSkippedLine, hskips, hquote, hd.isTerminator_eq, endLineTo,
      endLine, finish, endLastLine, enter, SplitState.isSkipping, countLine, discardLine]

theorem answer_finish (ht : t.Behind d before line) :
    answer (t.finish d) = answer (t.due d >>= finish d) := by
  rcases before with _ | _ | _
  · rw [due_of_line ht.state, ok_bind]
  · rw [due_of_return ht.state, finish, endLastLine, ht.state, endLineTo]
    cases t.endLine d <;> rfl
  · rw [due_of_ignored ht.state, ok_bind, finish, finish, endLastLine, endLastLine, ht.state]
    rfl

/-- Whatever is left of the lines before, lines with carriage returns end up like the same lines
with line feeds. -/
theorem answer_loneReturns (ht : t.Behind d before line) (hd : d.PlainEndings)
    {lines : List (List UInt8)} (hplain : ∀ text ∈ lines, ∀ c ∈ text, d.Plain c)
    (hkeeps : d.KeepsReturns before line lines) :
    answer (t.readAll d (LineEnding.loneReturn.write lines) >>= finish d) =
      answer (t.due d >>= fun s => s.readAll d (LineEnding.feed.write lines) >>= finish d) := by
  induction lines generalizing t before line with
  | nil => exact ht.answer_finish
  | cons text later ih =>
    obtain ⟨hskipped, hstart, hlater⟩ := hkeeps
    have htext := hplain text (by simp)
    by_cases hempty : text = [] ∧ d.skipsLine line = true
    · obtain ⟨rfl, hskips⟩ := hempty
      rw [hskipped rfl hskips]
      exact ht.answer_skippedLast hd hskips
    · have hcounts : text = [] → d.skipsLine line = false := by simpa using hempty
      have hreturn : LineEnding.loneReturn.write (text :: later) =
          (text ++ [13]) ++ LineEnding.loneReturn.write later := rfl
      have hfeed : LineEnding.feed.write (text :: later) =
          (text ++ [10]) ++ LineEnding.feed.write later := rfl
      rw [hreturn, hfeed, readAll_append, bind_assoc, ht.readAll_line hd htext hstart, bind_assoc]
      cases hdue : t.due d with
      | error halted => rfl
      | ok s =>
        obtain ⟨u, hu, hbehind, hended⟩ := (ht.atLine s hdue).readAll_ended hd htext hcounts
        rw [ok_bind, ok_bind, hu, ok_bind, readAll_append, bind_assoc,
          ih hbehind (fun text h => hplain text (by simp [h])) hlater, answer_bind, answer_bind,
          hended]

theorem readByte_feed {passed : Bool} (ht : t.Behind d (some passed) line) :
    t.readByte d 10 = t.due d := by
  cases passed
  · rw [readByte_afterReturn d 10 t ht.state, if_pos rfl, due_of_return ht.state]
  · rw [readByte_afterIgnoredReturn d 10 t ht.state, if_pos (.inl rfl), due_of_ignored ht.state]

end Behind

namespace AtLine

theorem readAll_returnAndFeed (hs : s.AtLine d line) (hd : d.PlainEndings)
    (ht : ∀ c ∈ text, d.Plain c) :
    answer (s.readAll d (text ++ [13, 10])) = answer (s.readAll d (text ++ [10])) ∧
      ∀ u, answer (s.readAll d (text ++ [10])) = .ok u → u.AtLine d (line + 1) := by
  by_cases hempty : text = [] ∧ d.skipsLine line = true
  · obtain ⟨rfl, hskips⟩ := hempty
    have hskips : d.skipsLine s.fileLines = true := hs.fileLines ▸ hskips
    have hquote (c : UInt8) (hc : c = 10 ∨ c = 13) : d.isQuote c = false :=
      hd.quote c ((hd.mem_endingBytes c).2 hc)
    have hreturn : s.readByte d 13 = .ok (s.enter .inSkippedField) := by
      simp [hs.readByte_eq, readAtLineStart, readAtSkippedLine, hskips, hquote,
        hd.isTerminator_eq]
    have hfeed : s.readByte d 10 = (s.enter .inSkippedField).endLineTo d .lineStart := by
      simp [hs.readByte_eq, readAtLineStart, readAtSkippedLine, hskips, hquote,
        hd.isTerminator_eq]
    have hended : (s.enter .inSkippedField).endLineTo d .lineStart =
        .ok (s.countLine.discardLine.enter .lineStart) := rfl
    have hskipped : (s.enter .inSkippedField).readByte d 10 =
        (s.enter .inSkippedField).endLineTo d .lineStart := by
      rw [readByte_enter s 10 (by decide) (by decide)]
      simp [accept, enter, readInSkippedField, hd.isTerminator_eq]
    constructor
    · rw [List.nil_append, readAll_cons, hreturn, ok_bind, readAll_singleton, hskipped,
        List.nil_append, readAll_singleton, hfeed]
    · intro u hu
      rw [List.nil_append, readAll_singleton, hfeed, hended] at hu
      cases hu
      exact ⟨rfl, congrArg (· + 1) hs.fileLines, hs.heldBlanks⟩
  · have hcounts : text = [] → d.skipsLine line = false := by simpa using hempty
    obtain ⟨u, hu, hbehind, hended⟩ := hs.readAll_ended hd ht hcounts
    have hboth : text ++ [13, 10] = (text ++ [13]) ++ [10] := by simp
    constructor
    · rw [hboth, readAll_append, hu, ok_bind, readAll_singleton, hbehind.readByte_feed, hended]
    · intro v hv
      rw [hended] at hv
      exact hbehind.atLine v (mapError_eq_ok_iff.1 hv)

theorem answer_returnsAndFeeds (hs : s.AtLine d line) (hd : d.PlainEndings)
    {lines : List (List UInt8)} (hplain : ∀ text ∈ lines, ∀ c ∈ text, d.Plain c) :
    answer (s.readAll d (LineEnding.returnAndFeed.write lines)) =
      answer (s.readAll d (LineEnding.feed.write lines)) := by
  induction lines generalizing s line with
  | nil => rfl
  | cons text later ih =>
    have hboth : LineEnding.returnAndFeed.write (text :: later) =
        (text ++ [13, 10]) ++ LineEnding.returnAndFeed.write later := rfl
    have hfeed : LineEnding.feed.write (text :: later) =
        (text ++ [10]) ++ LineEnding.feed.write later := rfl
    obtain ⟨hline, hnext⟩ := hs.readAll_returnAndFeed hd (hplain text (by simp))
    rw [hboth, hfeed, readAll_append _ (text ++ [13, 10]), readAll_append _ (text ++ [10]),
      answer_bind, answer_bind, hline]
    cases hread : answer (s.readAll d (text ++ [10])) with
    | error fault => rfl
    | ok u => exact ih (hnext u hread) fun text h => hplain text (by simp [h])

end AtLine

/-- Two runs with the same answer have the same fault, and leave the same if there is none. -/
theorem outcome_of_answer {p q : Progress} {x y : Except (Halted Splitter) Splitter}
    (hp : p.outcome = outcomeOf x) (hq : q.outcome = outcomeOf y) (h : answer y = answer x) :
    q.fault = p.fault ∧ (p.fault = none → q.session.splitter = p.session.splitter) := by
  obtain ⟨hpfault, hpleft⟩ := Prod.mk.inj hp
  obtain ⟨hqfault, hqleft⟩ := Prod.mk.inj hq
  rw [hpfault, hqfault, hpleft, hqleft]
  cases x with
  | ok s =>
    rw [mapError_eq_ok_iff.1 h]
    exact ⟨rfl, fun _ => rfl⟩
  | error halted =>
    obtain ⟨other, rfl, hfault⟩ := mapError_eq_error_iff.1 h
    exact ⟨congrArg some hfault, fun h => by cases h⟩

theorem atLine_start (d : Dialect) (headerLines : Nat) (anyWidth : Bool) :
    AtLine d 0 { headerLines := headerLines, anyWidth := anyWidth } :=
  ⟨rfl, rfl, fun _ => rfl⟩

theorem answer_endings (hd : d.PlainEndings) (ending : LineEnding) {lines : List (List UInt8)}
    (hplain : ∀ text ∈ lines, ∀ c ∈ text, d.Plain c)
    (hkeeps : ending = .loneReturn → d.KeepsReturns none 0 lines) (hs : s.AtLine d 0) :
    answer (s.readAll d (ending.write lines) >>= finish d) =
      answer (s.readAll d (LineEnding.feed.write lines) >>= finish d) := by
  cases ending with
  | feed => rfl
  | returnAndFeed => rw [answer_bind, answer_bind, hs.answer_returnsAndFeeds hd hplain]
  | loneReturn =>
    have hbehind : s.Behind d none 0 := by
      refine ⟨hs.state, fun u hu => ?_⟩
      rw [due_of_line hs.state] at hu
      cases hu
      exact hs
    rw [hbehind.answer_loneReturns hd hplain (hkeeps rfl), due_of_line hs.state, ok_bind]

end Splitter

def withoutMarkLines : List (List UInt8) → List (List UInt8)
  | [] => []
  | text :: later => Session.withoutMark text :: later

theorem mark_prefix_line (text : List UInt8) {c : UInt8} (hc : c ∉ byteOrderMark)
    (rest : List UInt8) : byteOrderMark <+: text ++ c :: rest ↔ byteOrderMark <+: text := by
  simp only [byteOrderMark, List.mem_cons, List.not_mem_nil, or_false, not_or] at hc
  match text with
  | [] | [_] | [_, _] => simp [byteOrderMark, List.cons_prefix_cons, Ne.symm hc.1, Ne.symm hc.2.1,
      Ne.symm hc.2.2]
  | _ :: _ :: _ :: _ => simp [byteOrderMark, List.cons_prefix_cons]

theorem withoutMark_line (text : List UInt8) {c : UInt8} (hc : c ∉ byteOrderMark)
    (rest : List UInt8) :
    Session.withoutMark (text ++ c :: rest) = Session.withoutMark text ++ c :: rest := by
  rw [Session.withoutMark, Session.withoutMark]
  by_cases hmark : byteOrderMark <+: text
  · rw [if_pos hmark, if_pos ((mark_prefix_line text hc _).2 hmark),
      List.drop_append_of_le_length hmark.length_le]
  · rw [if_neg hmark, if_neg fun h => hmark ((mark_prefix_line text hc _).1 h)]

theorem withoutMark_write (ending : LineEnding) (lines : List (List UInt8)) :
    Session.withoutMark (ending.write lines) = ending.write (withoutMarkLines lines) := by
  cases lines with
  | nil => rfl
  | cons text later =>
    obtain ⟨c, rest, hending, hc⟩ : ∃ c rest, ending.bytes = c :: rest ∧ c ∉ byteOrderMark := by
      cases ending
      all_goals exact ⟨_, _, rfl, by decide⟩
    have hwrite (text : List UInt8) : ending.write (text :: later) =
        text ++ c :: (rest ++ ending.write later) := by
      rw [LineEnding.write, List.flatMap_cons, hending, List.append_assoc, List.cons_append,
        ← hending]
      rfl
    rw [withoutMarkLines, hwrite, hwrite, withoutMark_line text hc]

theorem plain_withoutMarkLines {d : Dialect} {lines : List (List UInt8)}
    (hplain : ∀ text ∈ lines, ∀ c ∈ text, d.Plain c) :
    ∀ text ∈ withoutMarkLines lines, ∀ c ∈ text, d.Plain c := by
  cases lines with
  | nil => exact hplain
  | cons first later =>
    intro text htext c hc
    rcases List.mem_cons.1 htext with rfl | htext
    · refine hplain first (by simp) c ?_
      rw [Session.withoutMark] at hc
      split_ifs at hc
      · exact List.mem_of_mem_drop hc
      · exact hc
    · exact hplain text (by simp [htext]) c hc

/-- The ending of the lines makes no difference to what the input is split into, or to the fault if
it is at fault; for lone carriage returns, if no line depends on where the one before it ends. -/
theorem Session.tokenizeAll_endings (d : Dialect) (hd : d.PlainEndings) (ending : LineEnding)
    (lines : List (List UInt8)) (hplain : ∀ text ∈ lines, ∀ c ∈ text, d.Plain c)
    (hkeeps : ending = .loneReturn → d.KeepsReturns none 0 (withoutMarkLines lines))
    (headerLines : Nat) (anyWidth : Bool) (chunkSize otherSize : Nat) (feed other : Feed)
    (hcontent : feed.content = LineEnding.feed.write lines) (hfailures : feed.failures = 0)
    (hother : other.content = ending.write lines) (hothers : other.failures = 0) :
    let p := (Session.start headerLines anyWidth chunkSize).tokenizeAll d feed
    let q := (Session.start headerLines anyWidth otherSize).tokenizeAll d other
    q.fault = p.fault ∧ (p.fault = none → q.session.splitter = p.session.splitter) := by
  intro p q
  have hp : p.outcome = _ := tokenizeAll_start d headerLines anyWidth chunkSize hfailures
  have hq : q.outcome = _ := tokenizeAll_start d headerLines anyWidth otherSize hothers
  rw [hcontent, withoutMark_write] at hp
  rw [hother, withoutMark_write] at hq
  exact Splitter.outcome_of_answer hp hq <| Splitter.answer_endings hd ending
    (plain_withoutMarkLines hplain) hkeeps (Splitter.atLine_start d headerLines anyWidth)

theorem plainEndings_default : ({} : Dialect).PlainEndings where
  unset := rfl
  delimiter := by decide +kernel
  quote := by decide +kernel

/-- A comment between two rows, the second of which begins with a space. -/
theorem Session.tokenizeAll_endings_comment :
    let d : Dialect := {}
    let lines : List (List UInt8) := [[97, 44, 98], [35], [32, 44]]
    let p := (Session.start 0 false 2).tokenizeAll d (.memory (LineEnding.feed.write lines))
    let q := (Session.start 0 false 5).tokenizeAll d (.memory (LineEnding.loneReturn.write lines))
    q.fault = p.fault ∧ (p.fault = none → q.session.splitter = p.session.splitter) := by
  intro d lines
  have hplain : ∀ text ∈ lines, ∀ c ∈ text, d.Plain c := by
    intro text htext c hc
    have hplain : c ∉ d.endingBytes ∧ d.isQuote c = false ∧ d.isEscape c = false := by
      revert c
      revert text
      decide +kernel
    exact ⟨hplain.1, hplain.2.1, hplain.2.2⟩
  have hkeeps : d.KeepsReturns none 0 (withoutMarkLines lines) := by
    refine ⟨by decide, trivial, by decide, ?_, by decide, ?_, trivial⟩
    · intro h
      exact absurd h (by decide)
    · intro h
      exact absurd h (by decide)
  exact Session.tokenizeAll_endings d plainEndings_default .loneReturn lines hplain (fun _ => hkeeps)
    0 false 2 5 (.memory (LineEnding.feed.write lines)) (.memory (LineEnding.loneReturn.write lines))
    rfl rfl rfl rfl

/-- Behind a comment that ends in a lone carriage return the empty first field of the next line is
lost. -/
theorem Session.firstField_lost :
    let d : Dialect := {}
    let lines : List (List UInt8) := [[35], [44, 98]]
    let rows (ending : LineEnding) :=
      ((Session.start 0 false 1).tokenizeAll d (.memory (ending.write lines))).session.splitter.rows
    d.lineTerminator = none ∧
      (∀ c ∈ [10, 13], d.isDelimiter c = false ∧ d.isQuote c = false ∧ d.isComment c = false) ∧
      (∀ text ∈ lines, ∀ c ∈ text, c ≠ 10 ∧ c ≠ 13 ∧ d.isQuote c = false ∧ d.isEscape c = false) ∧
      rows .feed = [[[], [98]]] ∧ rows .returnAndFeed = [[[], [98]]] ∧
      rows .loneReturn = [[[98]]] := by
  decide +kernel

end TypedTable.Csv
