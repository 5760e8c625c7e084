import Mathlib.Tactic.SplitIfs
import TypedTable.Csv.Splitter
import TypedTable.Proofs.Outcome

/-!
# Reading byte after byte

A scan without a limit of lines reads one byte after the other and leaves none unread, so a scan of
two texts in a row is a scan of the first and then of the second. Whatever a byte does is put
together from a few moves, and only the move that ends a line can fail.
-/

set_option autoImplicit false

namespace TypedTable.Csv.Splitter

/-- Reads one byte. It is used up by a carriage return before it or by the state it is read in. -/
def readByte (d : Dialect) (s : Splitter) (c : UInt8) : Except (Halted Splitter) Splitter := do
  let (s, usedUp) ← s.settleReturn d c
  if usedUp then .ok s else s.accept d c

def readAll (d : Dialect) (bytes : List UInt8) (s : Splitter) :
    Except (Halted Splitter) Splitter :=
  bytes.foldlM (readByte d) s

@[simp] theorem readAll_nil (d : Dialect) (s : Splitter) : s.readAll d [] = .ok s := rfl

theorem readAll_cons (d : Dialect) (c : UInt8) (rest : List UInt8) (s : Splitter) :
    s.readAll d (c :: rest) = s.readByte d c >>= readAll d rest := rfl

theorem readAll_append (d : Dialect) (first later : List UInt8) (s : Splitter) :
    s.readAll d (first ++ later) = s.readAll d first >>= readAll d later :=
  List.foldlM_append

theorem scan_none (d : Dialect) (bytes : List UInt8) (s : Splitter) :
    s.scan d none bytes = (fun t => (t, [])) <$> s.readAll d bytes := by
  induction bytes generalizing s with
  | nil => rfl
  | cons c rest ih =>
    rw [scan, readAll_cons, readByte]
    simp only [reached, Bool.false_eq_true, if_false]
    cases hs : s.settleReturn d c with
    | error halted => rfl
    | ok settled =>
      obtain ⟨t, usedUp⟩ := settled
      cases usedUp with
      | true => exact ih t
      | false =>
        change (t.accept d c >>= fun u => scan d none rest u) =
          (fun u => (u, [])) <$> (t.accept d c >>= readAll d rest)
        cases ha : t.accept d c with
        | error halted => rfl
        | ok u => exact ih u

structure SameLines (s t : Splitter) : Prop where
  headerLines : t.headerLines = s.headerLines
  anyWidth : t.anyWidth = s.anyWidth
  lines : t.lines = s.lines

/-- What comes of a line: it is counted, and committed with the width that it has to have or gone. -/
structure Ended (d : Dialect) (s t : Splitter) : Prop where
  state : t.state = s.state
  heldBlanks : t.heldBlanks = s.heldBlanks
  fileLines : t.fileLines = s.fileLines + 1
  lines : s.SameLines t ∨ ∃ line : Line,
    (∀ width ∈ s.requiredFields d, line.fields = width) ∧
      SameLines { s with lines := s.lines.push line } t

theorem closeFields_eq (s : Splitter) (count : Nat) :
    ∃ stream, s.closeFields count =
      { s with stream := stream, openFields := s.openFields + count } := by
  induction count generalizing s with
  | zero => exact ⟨s.stream, rfl⟩
  | succ count ih =>
    obtain ⟨stream, hclosed⟩ := ih s.closeField
    refine ⟨stream, ?_⟩
    rw [closeFields, hclosed, closeField, Nat.add_assoc, Nat.add_comm 1]

theorem padLine_eq (s : Splitter) (missing : Nat) :
    Yields (fun t => ∃ stream, t =
        { s with stream := stream, openFields := s.openFields + missing })
      (fun halted => halted.left = s) (s.padLine missing) := by
  unfold padLine
  split_ifs with hnone
  · exact ⟨s.stream, by rw [hnone]; rfl⟩
  · split
    · exact closeFields_eq s missing
    · rfl

theorem endLine_ended (d : Dialect) (s : Splitter) :
    Yields (s.Ended d) (fun halted => s.SameLines halted.left) (s.endLine d) := by
  unfold endLine
  split_ifs
  · exact ⟨rfl, rfl, rfl, .inl ⟨rfl, rfl, rfl⟩⟩
  cases hrequired : s.requiredFields d with
  | none => exact ⟨rfl, rfl, rfl, .inr ⟨_, by simp [hrequired], ⟨rfl, rfl, rfl⟩⟩⟩
  | some width =>
    dsimp only
    split_ifs with hmany
    · unfold rejectLine
      cases d.onBadLines with
      | error => exact ⟨rfl, rfl, rfl⟩
      | warn | skip => exact ⟨rfl, rfl, rfl, .inl ⟨rfl, rfl, rfl⟩⟩
    · have hpadded := padLine_eq s (width - s.openFields)
      cases hp : s.padLine (width - s.openFields) with
      | error halted =>
        rw [hp] at hpadded
        obtain rfl := hpadded
        exact ⟨rfl, rfl, rfl⟩
      | ok u =>
        rw [hp] at hpadded
        obtain ⟨stream, rfl⟩ := hpadded
        refine ⟨rfl, rfl, rfl, .inr ⟨_, fun _ hw => ?_, ⟨rfl, rfl, rfl⟩⟩⟩
        rw [hrequired, Option.mem_some_iff] at hw
        show s.openFields + (width - s.openFields) = _
        omega

theorem ended_of_endLine {d : Dialect} {s t : Splitter} (h : s.endLine d = .ok t) : s.Ended d t := by
  have hended := endLine_ended d s
  rw [h] at hended
  exact hended

inductive Reaches (d : Dialect) (s : Splitter) : Splitter → Prop
  | refl : Reaches d s s
  | enter {t : Splitter} (state : SplitState) (h : state ≠ .finished) :
    Reaches d s t → Reaches d s (t.enter state)
  | push {t : Splitter} (byte : UInt8) : Reaches d s t → Reaches d s (t.push byte)
  | closeField {t : Splitter} : Reaches d s t → Reaches d s t.closeField
  | countLine {t : Splitter} : Reaches d s t → Reaches d s t.countLine
  | discardLine {t : Splitter} : Reaches d s t → Reaches d s t.discardLine
  | hold {t : Splitter} (blanks : Array UInt8) :
    Reaches d s t → Reaches d s { t with heldBlanks := blanks }
  | endLine {t u : Splitter} : Reaches d s t → t.endLine d = .ok u → Reaches d s u

/-- What comes of moves: the splitter they lead to, or a line on the way that cannot be ended. -/
def Moved (d : Dialect) (s : Splitter) : Except (Halted Splitter) Splitter → Prop
  | .ok t => Reaches d s t
  | .error halted => ∃ t, Reaches d s t ∧ t.endLine d = .error halted

section Moves

variable {d : Dialect} {c : UInt8} {s t : Splitter}

theorem Reaches.trans {u : Splitter} (hst : Reaches d s t) (htu : Reaches d t u) :
    Reaches d s u := by
  induction htu with
  | refl => exact hst
  | enter state h _ ih => exact ih.enter state h
  | push byte _ ih => exact ih.push byte
  | closeField _ ih => exact ih.closeField
  | countLine _ ih => exact ih.countLine
  | discardLine _ ih => exact ih.discardLine
  | hold blanks _ ih => exact ih.hold blanks
  | endLine _ he ih => exact ih.endLine he

theorem Moved.trans {r : Except (Halted Splitter) Splitter} (hst : Reaches d s t)
    (h : Moved d t r) : Moved d s r := by
  cases r with
  | ok u => exact hst.trans h
  | error halted =>
    obtain ⟨u, hu, he⟩ := h
    exact ⟨u, hst.trans hu, he⟩

theorem Moved.bind {r : Except (Halted Splitter) Splitter}
    {f : Splitter → Except (Halted Splitter) Splitter} (h : Moved d s r)
    (hf : ∀ t, Moved d t (f t)) : Moved d s (r >>= f) := by
  cases r with
  | ok t => exact (hf t).trans h
  | error halted => exact h

theorem moved_endLineTo (state : SplitState) (hf : state ≠ .finished) (h : Reaches d s t) :
    Moved d s (t.endLineTo d state) := by
  rw [endLineTo]
  cases he : t.endLine d with
  | ok u => exact (h.endLine he).enter state hf
  | error halted => exact ⟨t, h, he⟩

theorem afterDelimiter_ne_finished (d : Dialect) : afterDelimiter d ≠ .finished := by
  unfold afterDelimiter
  split_ifs <;> simp

theorem moved_readAtFieldStart (h : Reaches d s t) : Moved d s (t.readAtFieldStart d c) := by
  unfold readAtFieldStart
  split_ifs
  · exact moved_endLineTo _ (by simp) h.closeField
  · exact h.closeField.enter _ (by simp)
  · exact h.enter _ (by simp)
  · exact h.enter _ (by simp)
  · exact h
  · exact h.enter _ (by simp)
  · exact h.closeField
  · exact h.closeField.enter _ (by simp)
  · exact (h.push c).enter _ (by simp)

theorem moved_readInField (h : Reaches d s t) : Moved d s (t.readInField d c) := by
  unfold readInField
  split_ifs
  · exact moved_endLineTo _ (by simp) h.closeField
  · exact h.closeField.enter _ (by simp)
  · exact h.enter _ (by simp)
  · exact h.closeField.enter _ (afterDelimiter_ne_finished d)
  · exact h.closeField.enter _ (by simp)
  · exact h.push c

theorem moved_readInQuotes (s : Splitter) : Reaches d s (s.readInQuotes d c) := by
  unfold readInQuotes
  split_ifs
  · exact Reaches.refl.enter _ (by simp)
  · exact Reaches.refl.enter _ (by simp)
  · exact Reaches.refl.enter _ (by simp)
  · exact Reaches.refl.push c

theorem moved_readAfterQuote (s : Splitter) : Moved d s (s.readAfterQuote d c) := by
  unfold readAfterQuote
  split_ifs
  · exact (Reaches.refl.push c).enter _ (by simp)
  · exact Reaches.refl.closeField.enter _ (afterDelimiter_ne_finished d)
  · exact moved_endLineTo _ (by simp) Reaches.refl.closeField
  · exact Reaches.refl.closeField.enter _ (by simp)
  · exact (Reaches.refl.push c).enter _ (by simp)

theorem moved_readBetweenFields (s : Splitter) : Moved d s (s.readBetweenFields d c) := by
  unfold readBetweenFields
  split_ifs
  · exact moved_endLineTo _ (by simp) .refl
  · exact Reaches.refl.enter _ (by simp)
  · exact Reaches.refl.enter _ (by simp)
  · exact Reaches.refl
  · exact moved_readAtFieldStart (Reaches.refl.enter _ (by simp))

theorem moved_readInTrailingComment (s : Splitter) : Moved d s (s.readInTrailingComment d c) := by
  unfold readInTrailingComment
  split_ifs
  · exact moved_endLineTo _ (by simp) .refl
  · exact Reaches.refl.enter _ (by simp)
  · exact Reaches.refl

theorem moved_readInCommentLine (s : Splitter) : Reaches d s (s.readInCommentLine d c) := by
  unfold readInCommentLine
  split_ifs
  · exact Reaches.refl.countLine.enter _ (by simp)
  · exact Reaches.refl.countLine.enter _ (by simp)
  · exact Reaches.refl

theorem reaches_pushAll (bytes : List UInt8) (h : Reaches d s t) :
    Reaches d s (bytes.foldl push t) := by
  induction bytes generalizing t with
  | nil => exact h
  | cons byte rest ih => exact ih (h.push byte)

theorem reaches_releaseBlanks (s : Splitter) : Reaches d s (s.releaseBlanks d) := by
  unfold releaseBlanks
  refine (reaches_pushAll _ (Reaches.refl.hold #[])).enter _ ?_
  split_ifs <;> simp

theorem moved_readInBlanks (s : Splitter) : Moved d s (s.readInBlanks d c) := by
  unfold readInBlanks
  dsimp only
  split_ifs
  · exact (Reaches.refl.countLine.hold #[]).enter _ (by simp)
  · exact (Reaches.refl.countLine.hold #[]).enter _ (by simp)
  · exact Reaches.refl.enter _ (by simp)
  · exact Reaches.refl
  · exact moved_readAtFieldStart (Reaches.refl.enter _ (by simp))
  · exact Reaches.refl.hold _
  · exact moved_readInField (reaches_releaseBlanks s)
  · exact moved_readAtFieldStart (reaches_releaseBlanks s)

theorem moved_readAtSkippedLine (s : Splitter) : Moved d s (s.readAtSkippedLine d c) := by
  unfold readAtSkippedLine
  split_ifs
  · exact Reaches.refl.enter _ (by simp)
  · exact moved_endLineTo _ (by simp) (Reaches.refl.enter _ (by simp))
  · exact Reaches.refl.enter _ (by simp)

theorem moved_readAtLineStart (s : Splitter) : Moved d s (s.readAtLineStart d c) := by
  unfold readAtLineStart
  split_ifs
  · exact moved_readAtSkippedLine s
  · exact Reaches.refl.countLine
  · exact moved_endLineTo _ (by simp) .refl
  · exact Reaches.refl.countLine.enter _ (by simp)
  · exact Reaches.refl.enter _ (by simp)
  · exact Reaches.refl.enter _ (by simp)
  · exact Reaches.refl.enter _ (by simp)
  · exact Reaches.refl.enter _ (by simp)
  · exact (Reaches.refl.hold #[c]).enter _ (by simp)
  · exact moved_readAtFieldStart (Reaches.refl.enter _ (by simp))
  · exact moved_readAtFieldStart (Reaches.refl.enter _ (by simp))

theorem reaches_returnFromSkipped (s : Splitter) : Reaches d s s.returnFromSkipped :=
  Reaches.refl.countLine.discardLine.enter _ (by simp)

theorem moved_readAtSkippedField (s : Splitter) : Moved d s (s.readAtSkippedField d c) := by
  unfold readAtSkippedField
  split_ifs
  · exact moved_endLineTo _ (by simp) .refl
  · exact reaches_returnFromSkipped s
  · exact Reaches.refl.enter _ (by simp)
  · exact Reaches.refl
  · exact Reaches.refl.enter _ (by simp)

theorem moved_readInSkippedField (s : Splitter) : Moved d s (s.readInSkippedField d c) := by
  unfold readInSkippedField
  split_ifs
  · exact moved_endLineTo _ (by simp) .refl
  · exact reaches_returnFromSkipped s
  · exact Reaches.refl.enter _ (by simp)
  · exact Reaches.refl

theorem moved_readInSkippedQuotes (s : Splitter) : Reaches d s (s.readInSkippedQuotes d c) := by
  unfold readInSkippedQuotes
  split_ifs
  · exact Reaches.refl.enter _ (by simp)
  · exact Reaches.refl.enter _ (by simp)
  · exact Reaches.refl

theorem moved_readAfterSkippedQuote (s : Splitter) :
    Moved d s (s.readAfterSkippedQuote d c) := by
  unfold readAfterSkippedQuote
  split_ifs
  · exact Reaches.refl.enter _ (by simp)
  · exact moved_endLineTo _ (by simp) .refl
  · exact reaches_returnFromSkipped s
  · exact Reaches.refl.enter _ (by simp)
  · exact Reaches.refl.enter _ (by simp)

theorem moved_accept (d : Dialect) (c : UInt8) (s : Splitter) : Moved d s (s.accept d c) := by
  unfold accept
  cases s.state with
  | lineStart => exact moved_readAtLineStart s
  | fieldStart => exact moved_readAtFieldStart .refl
  | inField => exact moved_readInField .refl
  | escaped => exact (Reaches.refl.push c).enter _ (by simp)
  | inQuotes => exact moved_readInQuotes s
  | escapedInQuotes => exact (Reaches.refl.push c).enter _ (by simp)
  | afterQuote => exact moved_readAfterQuote s
  | betweenFields => exact moved_readBetweenFields s
  | inTrailingComment => exact moved_readInTrailingComment s
  | inCommentLine => exact moved_readInCommentLine s
  | inBlanks => exact moved_readInBlanks s
  | skippedFieldStart => exact moved_readAtSkippedField s
  | inSkippedField => exact moved_readInSkippedField s
  | inSkippedQuotes => exact moved_readInSkippedQuotes s
  | afterSkippedQuote => exact moved_readAfterSkippedQuote s
  | afterReturn | afterIgnoredReturn | finished => exact Reaches.refl

theorem readByte_afterReturn (d : Dialect) (c : UInt8) (s : Splitter)
    (hs : s.state = .afterReturn) :
    s.readByte d c =
      if c = 10 then s.endLineTo d .lineStart
      else if d.isDelimiter c ∧ !d.blankDelimited then
        s.endLineTo d .fieldStart >>= fun t => .ok t.closeField
      else
        s.endLineTo d (if d.isDelimiter c then .betweenFields else .lineStart) >>= accept d c := by
  simp only [readByte, settleReturn, hs]
  split_ifs
  all_goals simp only [bind_assoc, pure_eq_ok, ok_bind, if_true, Bool.false_eq_true, if_false]
  exact bind_pure _

theorem readByte_afterIgnoredReturn (d : Dialect) (c : UInt8) (s : Splitter)
    (hs : s.state = .afterIgnoredReturn) :
    s.readByte d c =
      if c = 10 ∨ d.isDelimiter c then .ok (s.enter .lineStart)
      else (s.enter .lineStart).accept d c := by
  simp only [readByte, settleReturn, hs, ok_bind]
  simp

theorem settleReturn_of_not_return (d : Dialect) (c : UInt8) (s : Splitter)
    (h : s.state ≠ .afterReturn) (hi : s.state ≠ .afterIgnoredReturn) :
    s.settleReturn d c = .ok (s, false) := by
  unfold settleReturn
  split
  · exact absurd ‹_› h
  · exact absurd ‹_› hi
  · rfl

theorem readByte_of_not_return (d : Dialect) (c : UInt8) (s : Splitter)
    (h : s.state ≠ .afterReturn) (hi : s.state ≠ .afterIgnoredReturn) :
    s.readByte d c = s.accept d c := by
  rw [readByte, settleReturn_of_not_return d c s h hi]
  rfl

theorem moved_readByte (d : Dialect) (c : UInt8) (s : Splitter) : Moved d s (s.readByte d c) := by
  by_cases h : s.state = .afterReturn
  · rw [readByte_afterReturn d c s h]
    split_ifs
    · exact moved_endLineTo _ (by simp) .refl
    · exact (moved_endLineTo _ (by simp) .refl).bind fun t => Reaches.refl.closeField
    · exact (moved_endLineTo _ (by simp) .refl).bind (moved_accept d c)
    · exact (moved_endLineTo _ (by simp) .refl).bind (moved_accept d c)
  by_cases hi : s.state = .afterIgnoredReturn
  · rw [readByte_afterIgnoredReturn d c s hi]
    split_ifs
    · exact Reaches.refl.enter _ (by simp)
    · exact (moved_accept d c _).trans (Reaches.refl.enter _ (by simp))
  · rw [readByte_of_not_return d c s h hi]
    exact moved_accept d c s

theorem moved_readAll (d : Dialect) (bytes : List UInt8) (s : Splitter) :
    Moved d s (s.readAll d bytes) := by
  induction bytes generalizing s with
  | nil => exact Reaches.refl
  | cons c rest ih =>
    rw [readAll_cons]
    exact (moved_readByte d c s).bind ih

end Moves

end TypedTable.Csv.Splitter
