import TypedTable.Proofs.Csv.Stepping

/-!
# Warnings

What is to happen to a line with too many fields is asked in one place, where the line ends. So one
byte does the same under two policies, or it ends the same line under both. A run that warns and one
that passes over such lines go on in step, since no warning is ever read again.
-/

set_option autoImplicit false

namespace TypedTable.Csv

def Dialect.withPolicy (d : Dialect) (policy : BadLinePolicy) : Dialect :=
  { d with onBadLines := policy }

def Warning.fault (w : Warning) : ReadFault := .malformed (.tooManyFields w.line w.expected w.seen)

namespace Splitter

variable {d : Dialect} {p q : BadLinePolicy} {c : UInt8} {s t u v : Splitter}

/-! ## One byte under two policies -/

/-- No test of a byte or of a line looks at the policy. -/
theorem withPolicy_tests (d : Dialect) (p : BadLinePolicy) :
    (∀ c, (d.withPolicy p).isTerminator c = d.isTerminator c) ∧
    (∀ c, (d.withPolicy p).isReturn c = d.isReturn c) ∧
    (∀ c, (d.withPolicy p).isQuote c = d.isQuote c) ∧
    (∀ c, (d.withPolicy p).isEscape c = d.isEscape c) ∧
    (∀ c, (d.withPolicy p).isInitialSpace c = d.isInitialSpace c) ∧
    (∀ c, (d.withPolicy p).isDelimiter c = d.isDelimiter c) ∧
    (∀ c, (d.withPolicy p).isComment c = d.isComment c) ∧
    (∀ line, (d.withPolicy p).skipsLine line = d.skipsLine line) ∧
    (d.withPolicy p).delimiter = d.delimiter ∧
    (d.withPolicy p).blankDelimited = d.blankDelimited ∧
    (d.withPolicy p).doubleQuote = d.doubleQuote ∧
    (d.withPolicy p).skipEmptyLines = d.skipEmptyLines ∧
    afterDelimiter (d.withPolicy p) = afterDelimiter d ∧
    ∀ s : Splitter, s.releaseBlanks (d.withPolicy p) = s.releaseBlanks d :=
  ⟨fun _ => rfl, fun _ => rfl, fun _ => rfl, fun _ => rfl, fun _ => rfl, fun _ => rfl,
    fun _ => rfl, fun _ => rfl, rfl, rfl, rfl, rfl, rfl, fun _ => rfl⟩

/-- Two results that are the same, or come of ending the same line under two policies. No line was
ended and nobody was warned before that. -/
inductive Twin (d : Dialect) (p q : BadLinePolicy) (s : Splitter) :
    Except (Halted Splitter) Splitter → Except (Halted Splitter) Splitter → Prop
  | same {t : Splitter} (h : t.warnings = s.warnings) : Twin d p q s (.ok t) (.ok t)
  | halted {halted : Halted Splitter} (h : halted.left.warnings = s.warnings) :
    Twin d p q s (.error halted) (.error halted)
  | line {t : Splitter} (state : SplitState)
    (h : t.lines = s.lines ∧ t.fileLines = s.fileLines ∧ t.warnings = s.warnings) :
    Twin d p q s (t.endLineTo (d.withPolicy p) state) (t.endLineTo (d.withPolicy q) state)

namespace Twin

theorem readAtFieldStart
    (h : t.lines = s.lines ∧ t.fileLines = s.fileLines ∧ t.warnings = s.warnings) :
    Twin d p q s (t.readAtFieldStart (d.withPolicy p) c)
      (t.readAtFieldStart (d.withPolicy q) c) := by
  unfold Splitter.readAtFieldStart
  simp only [withPolicy_tests]
  split_ifs <;> first | exact .same h.2.2 | exact .line _ h

theorem readInField
    (h : t.lines = s.lines ∧ t.fileLines = s.fileLines ∧ t.warnings = s.warnings) :
    Twin d p q s (t.readInField (d.withPolicy p) c) (t.readInField (d.withPolicy q) c) := by
  unfold Splitter.readInField
  simp only [withPolicy_tests]
  split_ifs <;> first | exact .same h.2.2 | exact .line _ h

theorem pushAll_books (bytes : List UInt8) (s : Splitter) :
    (bytes.foldl push s).lines = s.lines ∧ (bytes.foldl push s).fileLines = s.fileLines ∧
      (bytes.foldl push s).warnings = s.warnings := by
  induction bytes generalizing s with
  | nil => exact ⟨rfl, rfl, rfl⟩
  | cons byte rest ih => exact ih (s.push byte)

theorem readInBlanks :
    Twin d p q s (s.readInBlanks (d.withPolicy p) c) (s.readInBlanks (d.withPolicy q) c) := by
  have hreleased : (s.releaseBlanks d).lines = s.lines ∧
      (s.releaseBlanks d).fileLines = s.fileLines ∧ (s.releaseBlanks d).warnings = s.warnings :=
    pushAll_books _ { s with heldBlanks := #[] }
  unfold Splitter.readInBlanks
  simp only [withPolicy_tests]
  split_ifs
  · exact .same rfl
  · exact .same rfl
  · exact .same rfl
  · exact .same rfl
  · exact .readAtFieldStart ⟨rfl, rfl, rfl⟩
  · exact .same rfl
  · exact .readInField hreleased
  · exact .readAtFieldStart hreleased

theorem readAtLineStart :
    Twin d p q s (s.readAtLineStart (d.withPolicy p) c)
      (s.readAtLineStart (d.withPolicy q) c) := by
  unfold Splitter.readAtLineStart Splitter.readAtSkippedLine
  simp only [withPolicy_tests]
  split_ifs <;> first
    | exact .same rfl
    | exact .line _ ⟨rfl, rfl, rfl⟩
    | exact .readAtFieldStart ⟨rfl, rfl, rfl⟩

end Twin

theorem twin_accept (d : Dialect) (p q : BadLinePolicy) (c : UInt8) (s : Splitter) :
    Twin d p q s (s.accept (d.withPolicy p) c) (s.accept (d.withPolicy q) c) := by
  unfold accept
  cases s.state with
  | lineStart => exact .readAtLineStart
  | fieldStart => exact .readAtFieldStart ⟨rfl, rfl, rfl⟩
  | inField => exact .readInField ⟨rfl, rfl, rfl⟩
  | inBlanks => exact .readInBlanks
  | escaped | escapedInQuotes | afterReturn | afterIgnoredReturn | finished => exact .same rfl
  | inQuotes | inCommentLine | inSkippedQuotes =>
    unfold readInQuotes readInCommentLine readInSkippedQuotes
    simp only [withPolicy_tests]
    split_ifs <;> exact .same rfl
  | afterQuote | betweenFields | inTrailingComment =>
    unfold readAfterQuote readBetweenFields readInTrailingComment
    simp only [withPolicy_tests]
    split_ifs <;> first
      | exact .same rfl
      | exact .line _ ⟨rfl, rfl, rfl⟩
      | exact .readAtFieldStart ⟨rfl, rfl, rfl⟩
  | skippedFieldStart | inSkippedField | afterSkippedQuote =>
    unfold readAtSkippedField readInSkippedField readAfterSkippedQuote
    simp only [withPolicy_tests]
    split_ifs <;> first | exact .same rfl | exact .line _ ⟨rfl, rfl, rfl⟩

theorem twin_finish (d : Dialect) (p q : BadLinePolicy) (s : Splitter) :
    Twin d p q s (s.finish (d.withPolicy p)) (s.finish (d.withPolicy q)) := by
  unfold finish endLastLine
  cases s.state with
  | lineStart | inBlanks | afterIgnoredReturn | inCommentLine | finished => exact .same rfl
  | inQuotes | escapedInQuotes | escaped => exact .halted rfl
  | inField | fieldStart | afterQuote => exact .line (t := s.closeField) .finished ⟨rfl, rfl, rfl⟩
  | _ => exact .line .finished ⟨rfl, rfl, rfl⟩

/-! ## The line that is refused -/

def refused (s : Splitter) : Splitter := s.countLine.discardLine

def refusal (s : Splitter) (expected : Nat) : Warning :=
  ⟨s.refused.fileLines, expected, s.openFields⟩

def warned (s : Splitter) (expected : Nat) : Splitter :=
  { s.refused with warnings := s.warnings.push (s.refusal expected) }

theorem rejectLine_error (d : Dialect) (s : Splitter) (expected : Nat) :
    s.rejectLine (d.withPolicy .error) expected =
      .error ⟨(s.refusal expected).fault, s.refused⟩ := rfl

theorem rejectLine_warn (d : Dialect) (s : Splitter) (expected : Nat) :
    s.rejectLine (d.withPolicy .warn) expected = .ok (s.warned expected) := rfl

theorem rejectLine_skip (d : Dialect) (s : Splitter) (expected : Nat) :
    s.rejectLine (d.withPolicy .skip) expected = .ok s.refused := rfl

def Silent (s : Splitter) : Except (Halted Splitter) Splitter → Prop :=
  Yields (·.warnings = s.warnings) (·.left.warnings = s.warnings)

/-- A line is refused under every policy, or ends alike under all of them and without a warning. -/
theorem endLine_withPolicy (d : Dialect) (s : Splitter) :
    (∃ expected, ∀ p, s.endLine (d.withPolicy p) = s.rejectLine (d.withPolicy p) expected) ∨
    ∃ result, (∀ p, s.endLine (d.withPolicy p) = result) ∧ s.Silent result := by
  have hrequired (p : BadLinePolicy) : s.requiredFields (d.withPolicy p) = s.requiredFields d := rfl
  unfold endLine
  simp only [hrequired]
  split_ifs
  · exact .inr ⟨_, fun _ => rfl, rfl⟩
  cases s.requiredFields d with
  | none => exact .inr ⟨_, fun _ => rfl, rfl⟩
  | some expected =>
    dsimp only
    split_ifs
    · exact .inl ⟨expected, fun _ => rfl⟩
    · refine .inr ⟨_, fun _ => rfl, ?_⟩
      have hpadded := padLine_eq s (expected - s.openFields)
      cases hp : s.padLine (expected - s.openFields) with
      | error halted =>
        rw [hp] at hpadded
        exact congrArg Splitter.warnings hpadded
      | ok u =>
        rw [hp] at hpadded
        obtain ⟨stream, rfl⟩ := hpadded
        rfl

/-! ## Warning and passing over -/

def Muted (_ : OpenPart) (s t : Splitter) : Prop :=
  ∃ warnings, s = { t with warnings := warnings }

namespace Muted

variable {part : OpenPart}

theorem map {f : Splitter → Splitter} {other : OpenPart}
    (hf : ∀ (t : Splitter) (warnings : Array Warning),
      f { t with warnings := warnings } = { f t with warnings := warnings })
    (h : Muted part s t) : Muted other (f s) (f t) := by
  obtain ⟨warnings, rfl⟩ := h
  exact ⟨warnings, hf t warnings⟩

theorem trans (h : Muted part s t) (h' : Muted part t u) : Muted part s u := by
  obtain ⟨warnings, rfl⟩ := h
  obtain ⟨others, rfl⟩ := h'
  exact ⟨warnings, rfl⟩

theorem closeFields (h : Muted part s t) (count : Nat) :
    Muted part (s.closeFields count) (t.closeFields count) := by
  induction count generalizing s t with
  | zero => exact h
  | succ count ih => exact ih (h.map (f := closeField) fun _ _ => rfl)

theorem padLine (h : Muted part s t) (missing : Nat) :
    Agree Muted (fun _ => False) (Muted part) (s.padLine missing) (t.padLine missing) := by
  have hroom : s.stream.checkRoom missing = t.stream.checkRoom missing := by
    obtain ⟨warnings, rfl⟩ := h
    rfl
  unfold Splitter.padLine
  rw [hroom]
  split_ifs
  · exact .ok h
  · cases t.stream.checkRoom missing with
    | ok => exact .ok (h.closeFields missing)
    | error fault => exact .error rfl h

theorem rejectLine (d : Dialect) (h : Muted part s t) (expected : Nat) :
    Agree Muted (fun _ => False) (Muted part) (s.rejectLine d expected)
      (t.rejectLine d expected) := by
  obtain ⟨warnings, rfl⟩ := h
  unfold Splitter.rejectLine
  cases d.onBadLines with
  | error => exact .error rfl ⟨warnings, rfl⟩
  | warn => exact .ok ⟨_, rfl⟩
  | skip => exact .ok ⟨warnings, rfl⟩

theorem endLine (d : Dialect) (h : Muted part s t) :
    Agree Muted (fun _ => False) (Muted part) (s.endLine d) (t.endLine d) := by
  have hsame : s.state = t.state ∧ s.requiredFields d = t.requiredFields d ∧
      s.openFields = t.openFields := by
    obtain ⟨warnings, rfl⟩ := h
    exact ⟨rfl, rfl, rfl⟩
  unfold Splitter.endLine
  rw [hsame.1, hsame.2.1]
  split_ifs
  · exact .ok (h.map (f := fun t => t.countLine.discardLine) fun _ _ => rfl)
  cases t.requiredFields d with
  | none => exact .ok (h.map (f := commitLine) fun _ _ => rfl)
  | some expected =>
    dsimp only
    rw [hsame.2.2]
    split_ifs
    · exact h.rejectLine d expected
    · exact (h.padLine _).bind fun _ _ h => .ok (h.map (f := commitLine) fun _ _ => rfl)

theorem lockstep (d : Dialect) : Lockstep d (fun _ => False) Muted where
  state := fun ⟨_, h⟩ => h ▸ rfl
  heldBlanks := fun ⟨_, h⟩ => h ▸ rfl
  fileLines := fun ⟨_, h⟩ => h ▸ rfl
  loosen h _ := h
  enter state h := h.map (f := (enter · state)) fun _ _ => rfl
  push byte h := h.map (f := (push · byte)) fun _ _ => rfl
  closeField h := h.map (f := closeField) fun _ _ => rfl
  countLine h := h.map (f := countLine) fun _ _ => rfl
  discardLine h := h.map (f := discardLine) fun _ _ => rfl
  hold blanks h := h.map (f := ({ · with heldBlanks := blanks })) fun _ _ => rfl
  endLine h _ _ := h.endLine d

end Muted

def AgreeMuted (x y : Except (Halted Splitter) Splitter) : Prop :=
  Agree Muted (fun _ => False) (Muted .nothing) x y

namespace AgreeMuted

variable {x y z : Except (Halted Splitter) Splitter}

theorem trans (h : AgreeMuted x y) (h' : AgreeMuted y z) : AgreeMuted x z := by
  cases h with
  | ok h =>
    cases h' with
    | ok h' => exact .ok (h.trans h')
    | excused h' => exact h'.elim
  | error hf h =>
    cases h' with
    | error hf' h' => exact .error (hf.trans hf') (h.trans h')
    | excused h' => exact h'.elim
  | excused h => exact h.elim

theorem endLineTo (d : Dialect) (state : SplitState) (s : Splitter) :
    AgreeMuted (s.endLineTo (d.withPolicy .warn) state)
      (s.endLineTo (d.withPolicy .skip) state) := by
  rw [Splitter.endLineTo, Splitter.endLineTo]
  rcases endLine_withPolicy d s with ⟨expected, hline⟩ | ⟨result, hline, -⟩
  · rw [hline, hline, rejectLine_warn, rejectLine_skip]
    exact .ok ⟨_, rfl⟩
  · rw [hline, hline]
    cases result with
    | ok t => exact .ok ⟨t.warnings, rfl⟩
    | error halted => exact .error rfl ⟨halted.left.warnings, rfl⟩

theorem of_twin (h : Twin d .warn .skip s x y) : AgreeMuted x y := by
  cases h with
  | @same t => exact .ok ⟨t.warnings, rfl⟩
  | @halted halted => exact .error rfl ⟨halted.left.warnings, rfl⟩
  | line state => exact endLineTo d state _

theorem accept (c : UInt8) (h : Muted .nothing s t) :
    AgreeMuted (s.accept (d.withPolicy .warn) c) (t.accept (d.withPolicy .skip) c) :=
  .trans ((Muted.lockstep _).accept c h) (of_twin (twin_accept d _ _ c t))

theorem readByte (c : UInt8) (s : Splitter) :
    AgreeMuted (s.readByte (d.withPolicy .warn) c) (s.readByte (d.withPolicy .skip) c) := by
  by_cases h : s.state = .afterReturn
  · rw [readByte_afterReturn _ c s h, readByte_afterReturn _ c s h]
    simp only [withPolicy_tests]
    split_ifs
    · exact endLineTo d _ s
    · exact Agree.bind (endLineTo d _ s) fun _ _ h => .ok (h.map (f := closeField) fun _ _ => rfl)
    · exact Agree.bind (endLineTo d _ s) fun _ _ h => accept c h
    · exact Agree.bind (endLineTo d _ s) fun _ _ h => accept c h
  by_cases hi : s.state = .afterIgnoredReturn
  · rw [readByte_afterIgnoredReturn _ c s hi, readByte_afterIgnoredReturn _ c s hi]
    simp only [withPolicy_tests]
    split_ifs
    · exact .ok ⟨s.warnings, rfl⟩
    · exact accept c ⟨s.warnings, rfl⟩
  · rw [readByte_of_not_return _ c s h hi, readByte_of_not_return _ c s h hi]
    exact accept c ⟨s.warnings, rfl⟩

theorem readAll (bytes : List UInt8) (s : Splitter) :
    AgreeMuted (s.readAll (d.withPolicy .warn) bytes) (s.readAll (d.withPolicy .skip) bytes) := by
  induction bytes generalizing s with
  | nil => exact .ok ⟨s.warnings, rfl⟩
  | cons c rest ih =>
    rw [readAll_cons, readAll_cons]
    exact Agree.bind (readByte c s) fun _ t h =>
      AgreeMuted.trans ((Muted.lockstep _).readAll rest h) (ih t)

end AgreeMuted

def readUntil (d : Dialect) (failed : Bool) (bytes : List UInt8) (s : Splitter) :
    Except (Halted Splitter) Splitter :=
  s.readAll d bytes >>= fun t => if failed then .ok t else t.finish d

/-- Warnings are all that is different if a line is passed over without one. -/
theorem readUntil_muted (d : Dialect) (failed : Bool) (bytes : List UInt8) (s : Splitter) :
    AgreeMuted (s.readUntil (d.withPolicy .warn) failed bytes)
      (s.readUntil (d.withPolicy .skip) failed bytes) := by
  refine Agree.bind (AgreeMuted.readAll bytes s) fun a b h => ?_
  split_ifs
  · exact .ok h
  · exact AgreeMuted.trans ((Muted.lockstep _).finish h) (.of_twin (twin_finish d _ _ b))

/-! ## Passing over in silence -/

namespace Silent

variable {x : Except (Halted Splitter) Splitter}

theorem of_later (h : t.Silent x) (hw : t.warnings = s.warnings) : s.Silent x := by
  rw [Silent, hw] at h
  exact h

theorem bind {f : Splitter → Except (Halted Splitter) Splitter} (h : s.Silent x)
    (hf : ∀ t : Splitter, t.Silent (f t)) : s.Silent (x >>= f) := by
  cases x with
  | ok t => exact (hf t).of_later h
  | error halted => exact h

theorem endLine (d : Dialect) (s : Splitter) : s.Silent (s.endLine (d.withPolicy .skip)) := by
  rcases endLine_withPolicy d s with ⟨expected, hline⟩ | ⟨result, hline, hsilent⟩
  · rw [hline, rejectLine_skip]
    rfl
  · rw [hline]
    exact hsilent

theorem of_twin {y : Except (Halted Splitter) Splitter} (h : Twin d .skip p s x y) :
    s.Silent x := by
  cases h with
  | same h => exact h
  | halted h => exact h
  | @line t state h => exact of_later (bind (endLine d t) fun _ => rfl) h.2.2

theorem of_reaches (h : Reaches (d.withPolicy .skip) s t) : t.warnings = s.warnings := by
  induction h with
  | refl => rfl
  | @endLine t u _ he ih =>
    have hline := endLine d t
    rw [he] at hline
    exact Eq.trans hline ih
  | enter _ _ _ ih | push _ _ ih | closeField _ ih | countLine _ ih | discardLine _ ih
  | hold _ _ ih => exact ih

theorem of_moved (h : Moved (d.withPolicy .skip) s x) : s.Silent x := by
  cases x with
  | ok t => exact of_reaches h
  | error halted =>
    obtain ⟨t, hst, he⟩ := h
    exact of_later (he ▸ endLine d t) (of_reaches hst)

end Silent

theorem readUntil_silent (failed : Bool) (bytes : List UInt8) (s : Splitter) :
    s.Silent (s.readUntil (d.withPolicy .skip) failed bytes) := by
  refine (Silent.of_moved (moved_readAll _ bytes s)).bind fun t => ?_
  split_ifs
  · rfl
  · exact .of_twin (twin_finish d .skip .skip t)

end Splitter

end TypedTable.Csv
