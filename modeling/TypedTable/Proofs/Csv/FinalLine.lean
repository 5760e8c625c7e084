import TypedTable.Proofs.Csv.Filling
import TypedTable.Proofs.Csv.Limits
import TypedTable.Proofs.Csv.LineEndings

/-!
# The end of the last line

The last line of an input may lack its line feed: where the input ends, the line under construction
ends as with a line feed. Only a comment and a blank line, of which nothing is left, are counted by
a line feed alone. Behind a closing quote a line feed that is the delimiter does not end the line.
-/

set_option autoImplicit false

namespace TypedTable.Csv

/-- Whether a line that is in this state where the input ends is not counted. -/
def SplitState.isUncounted : SplitState → Bool
  | .inCommentLine | .inBlanks => true
  | _ => false

namespace Dialect

/-- Lines end in a line feed or a carriage return, and nothing escapes either. -/
structure EndsOpenly (d : Dialect) : Prop where
  escape : d.escapeChar = none
  terminator : d.lineTerminator = none

/-- The states that a byte can lead to. A line feed as the quote never opens a field, because it is
seen to end the line first. -/
def LeadsTo (d : Dialect) (c : UInt8) : SplitState → Prop
  | .lineStart => c = 10
  | .inQuotes | .afterQuote => d.isQuote 10 = false
  | .escaped | .escapedInQuotes | .afterReturn | .afterIgnoredReturn | .finished => False
  | _ => True

variable {d : Dialect} {c : UInt8}

namespace EndsOpenly

theorem isTerminator_eq (hd : d.EndsOpenly) (c : UInt8) : d.isTerminator c = (c == 10) := by
  rw [isTerminator, hd.terminator]
  rfl

theorem isTerminator_feed (hd : d.EndsOpenly) : d.isTerminator 10 = true :=
  (hd.isTerminator_eq 10).trans rfl

theorem eq_feed (hd : d.EndsOpenly) (h : d.isTerminator c = true) : c = 10 := by
  rw [hd.isTerminator_eq] at h
  exact eq_of_beq h

theorem isReturn_eq_false (hd : d.EndsOpenly) (hc : c ≠ 13) : d.isReturn c = false := by
  simp [isReturn, hd.terminator, hc]

theorem isEscape_eq_false (hd : d.EndsOpenly) (c : UInt8) : d.isEscape c = false := by
  rw [isEscape, hd.escape]
  rfl

theorem quote_feed (hd : d.EndsOpenly) (hterminator : ¬ d.isTerminator c = true)
    (hquote : d.isQuote c = true) : d.isQuote 10 = false := by
  rw [hd.isTerminator_eq] at hterminator
  rw [isQuote, Bool.and_eq_true] at hquote
  have hfeed : (10 : UInt8) ≠ d.quoteChar := by
    rw [← eq_of_beq hquote.2]
    intro h
    simp [← h] at hterminator
  simp [isQuote, hfeed]

end EndsOpenly

end Dialect

namespace Splitter

variable {d : Dialect} {b c : UInt8} {s t : Splitter}

/-! ## Where a byte leads to -/

theorem leadsTo_same {state : SplitState} (hs : s.state = state) (h : d.LeadsTo c state) :
    Yields (fun t => d.LeadsTo c t.state) (fun _ => True)
      (.ok s : Except (Halted Splitter) Splitter) := by
  rw [← hs] at h
  exact h

theorem leadsTo_afterDelimiter (d : Dialect) (c : UInt8) : d.LeadsTo c (afterDelimiter d) := by
  unfold afterDelimiter
  split_ifs <;> trivial

theorem leadsTo_readInSkippedQuotes (hs : s.state = .inSkippedQuotes) :
    d.LeadsTo c (s.readInSkippedQuotes d c).state := by
  unfold readInSkippedQuotes
  split_ifs
  · trivial
  · trivial
  · exact leadsTo_same hs trivial

section Steps

variable (hd : d.EndsOpenly)

include hd

theorem leadsTo_ended (hterminator : d.isTerminator c = true) (s : Splitter) :
    Yields (fun t => d.LeadsTo c t.state) (fun _ => True) (s.endLineTo d .lineStart) := by
  cases he : s.endLineTo d .lineStart with
  | ok t => exact leadsTo_same (endLineTo_state he) (hd.eq_feed hterminator)
  | error halted => trivial

theorem leadsTo_readInQuotes (hs : s.state = .inQuotes) (hquote : d.isQuote 10 = false) :
    d.LeadsTo c (s.readInQuotes d c).state := by
  unfold readInQuotes
  simp only [hd.isEscape_eq_false, Bool.false_eq_true, if_false]
  split_ifs
  · exact hquote
  · trivial
  · exact leadsTo_same (s := s.push c) hs hquote

variable (hc : c ≠ 13)

include hc

theorem leadsTo_readAtFieldStart (hs : s.state = .fieldStart) :
    Yields (fun t => d.LeadsTo c t.state) (fun _ => True) (s.readAtFieldStart d c) := by
  unfold readAtFieldStart
  simp only [hd.isReturn_eq_false hc, hd.isEscape_eq_false, Bool.false_eq_true, if_false]
  split_ifs with hterminator hquote
  · exact leadsTo_ended hd hterminator _
  · exact hd.quote_feed hterminator hquote
  · exact leadsTo_same hs trivial
  · trivial
  · exact leadsTo_same (s := s.closeField) hs trivial
  · trivial
  · trivial

theorem leadsTo_readInField (hs : s.state = .inField) :
    Yields (fun t => d.LeadsTo c t.state) (fun _ => True) (s.readInField d c) := by
  unfold readInField
  simp only [hd.isReturn_eq_false hc, hd.isEscape_eq_false, Bool.false_eq_true, if_false]
  split_ifs with hterminator
  · exact leadsTo_ended hd hterminator _
  · exact leadsTo_afterDelimiter d c
  · trivial
  · exact leadsTo_same (s := s.push c) hs trivial

theorem leadsTo_readAfterQuote (s : Splitter) (hquote : d.isQuote 10 = false) :
    Yields (fun t => d.LeadsTo c t.state) (fun _ => True) (s.readAfterQuote d c) := by
  unfold readAfterQuote
  simp only [hd.isReturn_eq_false hc, Bool.false_eq_true, if_false]
  split_ifs with _ _ hterminator
  · exact hquote
  · exact leadsTo_afterDelimiter d c
  · exact leadsTo_ended hd hterminator _
  · trivial

theorem leadsTo_readBetweenFields (hs : s.state = .betweenFields) :
    Yields (fun t => d.LeadsTo c t.state) (fun _ => True) (s.readBetweenFields d c) := by
  unfold readBetweenFields
  simp only [hd.isReturn_eq_false hc, Bool.false_eq_true, if_false]
  split_ifs with hterminator
  · exact leadsTo_ended hd hterminator _
  · trivial
  · exact leadsTo_same hs trivial
  · exact leadsTo_readAtFieldStart hd hc rfl

theorem leadsTo_readInTrailingComment (hs : s.state = .inTrailingComment) :
    Yields (fun t => d.LeadsTo c t.state) (fun _ => True) (s.readInTrailingComment d c) := by
  unfold readInTrailingComment
  simp only [hd.isReturn_eq_false hc, Bool.false_eq_true, if_false]
  split_ifs with hterminator
  · exact leadsTo_ended hd hterminator _
  · exact leadsTo_same hs trivial

theorem leadsTo_readInCommentLine (hs : s.state = .inCommentLine) :
    d.LeadsTo c (s.readInCommentLine d c).state := by
  unfold readInCommentLine
  simp only [hd.isReturn_eq_false hc, Bool.false_eq_true, if_false]
  split_ifs with hterminator
  · exact hd.eq_feed hterminator
  · exact leadsTo_same hs trivial

theorem leadsTo_readInBlanks (hs : s.state = .inBlanks) :
    Yields (fun t => d.LeadsTo c t.state) (fun _ => True) (s.readInBlanks d c) := by
  unfold readInBlanks
  simp only [hd.isReturn_eq_false hc, Bool.false_eq_true, if_false]
  split_ifs with hterminator _ _ _ _ hfield
  · exact hd.eq_feed hterminator
  · trivial
  · exact leadsTo_same hs trivial
  · exact leadsTo_readAtFieldStart hd hc rfl
  · exact leadsTo_same (s := { s with heldBlanks := s.heldBlanks.push c }) hs trivial
  · exact leadsTo_readInField hd hc hfield
  · refine leadsTo_readAtFieldStart hd hc ?_
    unfold releaseBlanks at hfield ⊢
    simp only [enter] at hfield ⊢
    split_ifs at hfield ⊢ <;> simp_all

theorem leadsTo_readAtLineStart (hs : s.state = .lineStart) :
    Yields (fun t => d.LeadsTo c t.state) (fun _ => True) (s.readAtLineStart d c) := by
  unfold readAtLineStart readAtSkippedLine
  simp only [hd.isReturn_eq_false hc, Bool.false_eq_true, if_false]
  split_ifs with _ _ hterminator hterminator
  · trivial
  · exact leadsTo_ended hd hterminator _
  · trivial
  · exact leadsTo_same (s := s.countLine) hs (hd.eq_feed hterminator)
  · exact leadsTo_ended hd hterminator _
  · trivial
  · trivial
  · trivial
  · trivial
  · exact leadsTo_readAtFieldStart hd hc rfl
  · exact leadsTo_readAtFieldStart hd hc rfl

theorem leadsTo_readAtSkippedField (hs : s.state = .skippedFieldStart) :
    Yields (fun t => d.LeadsTo c t.state) (fun _ => True) (s.readAtSkippedField d c) := by
  unfold readAtSkippedField
  simp only [hd.isReturn_eq_false hc, Bool.false_eq_true, if_false]
  split_ifs with hterminator
  · exact leadsTo_ended hd hterminator _
  · trivial
  · exact leadsTo_same hs trivial
  · trivial

theorem leadsTo_readInSkippedField (hs : s.state = .inSkippedField) :
    Yields (fun t => d.LeadsTo c t.state) (fun _ => True) (s.readInSkippedField d c) := by
  unfold readInSkippedField
  simp only [hd.isReturn_eq_false hc, Bool.false_eq_true, if_false]
  split_ifs with hterminator
  · exact leadsTo_ended hd hterminator _
  · trivial
  · exact leadsTo_same hs trivial

theorem leadsTo_readAfterSkippedQuote (s : Splitter) :
    Yields (fun t => d.LeadsTo c t.state) (fun _ => True) (s.readAfterSkippedQuote d c) := by
  unfold readAfterSkippedQuote
  simp only [hd.isReturn_eq_false hc, Bool.false_eq_true, if_false]
  split_ifs with _ hterminator
  · trivial
  · exact leadsTo_ended hd hterminator _
  · trivial
  · trivial

theorem leadsTo_accept (hs : d.LeadsTo b s.state) :
    Yields (fun t => d.LeadsTo c t.state) (fun _ => True) (s.accept d c) := by
  unfold accept
  cases hstate : s.state with
  | lineStart => exact leadsTo_readAtLineStart hd hc hstate
  | fieldStart => exact leadsTo_readAtFieldStart hd hc hstate
  | inField => exact leadsTo_readInField hd hc hstate
  | inQuotes =>
    rw [hstate] at hs
    exact leadsTo_readInQuotes hd hstate hs
  | afterQuote =>
    rw [hstate] at hs
    exact leadsTo_readAfterQuote hd hc s hs
  | betweenFields => exact leadsTo_readBetweenFields hd hc hstate
  | inTrailingComment => exact leadsTo_readInTrailingComment hd hc hstate
  | inCommentLine => exact leadsTo_readInCommentLine hd hc hstate
  | inBlanks => exact leadsTo_readInBlanks hd hc hstate
  | skippedFieldStart => exact leadsTo_readAtSkippedField hd hc hstate
  | inSkippedField => exact leadsTo_readInSkippedField hd hc hstate
  | inSkippedQuotes => exact leadsTo_readInSkippedQuotes hstate
  | afterSkippedQuote => exact leadsTo_readAfterSkippedQuote hd hc s
  | escaped | escapedInQuotes | afterReturn | afterIgnoredReturn | finished =>
    rw [hstate] at hs
    exact absurd hs id

end Steps

theorem readByte_of_leadsTo (hs : d.LeadsTo b s.state) (c : UInt8) :
    s.readByte d c = s.accept d c := by
  apply readByte_of_not_return
  all_goals
    intro hstate
    rw [hstate] at hs
    exact hs

/-- A text without carriage returns leads to a state that its last byte leads to. -/
theorem leadsTo_readAll (hd : d.EndsOpenly) {text : List UInt8} (hr : 13 ∉ text)
    (hs : d.LeadsTo b s.state) (h : s.readAll d (text ++ [c]) = .ok t) (hc : c ≠ 13) :
    d.LeadsTo c t.state := by
  induction text generalizing s b with
  | nil =>
    have haccept := leadsTo_accept hd hc hs
    rw [List.nil_append, readAll_singleton, readByte_of_leadsTo hs] at h
    rw [h] at haccept
    exact haccept
  | cons first rest ih =>
    obtain ⟨hfirst, hrest⟩ := List.ne_and_not_mem_of_not_mem_cons hr
    rw [List.cons_append, readAll_cons, readByte_of_leadsTo hs] at h
    obtain ⟨u, hu, h⟩ := bind_eq_ok_iff.1 h
    have haccept := leadsTo_accept hd hfirst.symm hs
    rw [hu] at haccept
    exact ih hrest haccept h

/-! ## Where the input ends -/

/-- A line feed ends the line under construction, and the input ends behind it. -/
theorem endLineTo_finish (s : Splitter) :
    s.endLineTo d .lineStart >>= finish d = s.endLine d >>= fun t => .ok (t.enter .finished) := by
  rw [endLineTo, bind_assoc]
  rfl

theorem finish_of_skipping (hs : s.state.isSkipping = true) :
    s.finish d = .ok (s.countLine.discardLine.enter .finished) := by
  cases hstate : s.state with
  | skippedFieldStart | inSkippedField | inSkippedQuotes | afterSkippedQuote =>
    simp [finish, endLastLine, endLine, hstate, SplitState.isSkipping]
  | _ => simp [hstate, SplitState.isSkipping] at hs

theorem finish_enter_skipping {state : SplitState} (hs : s.state.isSkipping = true)
    (h : state.isSkipping = true) : (s.enter state).finish d = s.finish d := by
  rw [finish_of_skipping (s := s.enter state) h, finish_of_skipping hs]
  rfl

theorem finish_feed_skipping (hd : d.EndsOpenly) (hs : s.state.isSkipping = true) :
    s.accept d 10 >>= finish d = s.finish d := by
  have hfeed := hd.isTerminator_feed
  have hended : s.endLineTo d .lineStart >>= finish d = s.finish d := by
    rw [endLineTo_finish, finish_of_skipping hs, endLine, if_pos hs]
    rfl
  unfold accept
  cases hstate : s.state with
  | skippedFieldStart =>
    rw [readAtSkippedField, if_pos hfeed]
    exact hended
  | inSkippedField =>
    rw [readInSkippedField, if_pos hfeed]
    exact hended
  | inSkippedQuotes =>
    unfold readInSkippedQuotes
    split_ifs
    · rw [ok_bind, finish_enter_skipping hs rfl]
    · rw [ok_bind, finish_enter_skipping hs rfl]
    · rfl
  | afterSkippedQuote =>
    unfold readAfterSkippedQuote
    split_ifs
    · rw [ok_bind, finish_enter_skipping hs rfl]
    · exact hended
  | _ => simp [hstate, SplitState.isSkipping] at hs

theorem answer_finish_inQuotes (hs : s.state = .inQuotes) :
    answer (s.finish d) = .error (.malformed (.openQuote (s.fileLines + 1))) := by
  rw [finish, endLastLine, hs]
  rfl

theorem finish_feed_ended (haccept : s.accept d 10 = t.endLineTo d .lineStart)
    (hend : s.endLastLine d = t.endLine d) : s.accept d 10 >>= finish d = s.finish d := by
  rw [haccept, endLineTo_finish, finish, hend]
  rfl

/-- The end of the input does what a line feed does, if the line under construction counts. -/
theorem answer_finish_feed (hd : d.EndsOpenly) (hs : d.LeadsTo c s.state) (hc : c ≠ 10)
    (hcounted : s.state.isUncounted = false)
    (hquote : d.isDelimiter 10 = true → s.state ≠ .afterQuote) :
    answer (s.accept d 10 >>= finish d) = answer (s.finish d) := by
  have hfeed := hd.isTerminator_feed
  cases hstate : s.state with
  | skippedFieldStart | inSkippedField | inSkippedQuotes | afterSkippedQuote =>
    rw [finish_feed_skipping hd (by rw [hstate]; rfl)]
  | fieldStart =>
    rw [finish_feed_ended (t := s.closeField) (by simp [accept, hstate, readAtFieldStart, hfeed])
      (by rw [endLastLine, hstate])]
  | inField =>
    rw [finish_feed_ended (t := s.closeField) (by simp [accept, hstate, readInField, hfeed])
      (by rw [endLastLine, hstate])]
  | betweenFields =>
    rw [finish_feed_ended (t := s) (by simp [accept, hstate, readBetweenFields, hfeed])
      (by rw [endLastLine, hstate])]
  | inTrailingComment =>
    rw [finish_feed_ended (t := s) (by simp [accept, hstate, readInTrailingComment, hfeed])
      (by rw [endLastLine, hstate])]
  | afterQuote =>
    rw [hstate] at hs
    have hfirst : d.isQuote 10 = false := hs
    have hdelimiter : d.isDelimiter 10 = false := eq_false_of_ne_true fun h => hquote h hstate
    rw [finish_feed_ended (t := s.closeField)
      (by simp [accept, hstate, readAfterQuote, hfirst, hdelimiter, hfeed])
      (by rw [endLastLine, hstate])]
  -- the line feed goes into the field, which stays open
  | inQuotes =>
    rw [hstate] at hs
    have hfirst : d.isQuote 10 = false := hs
    have hopen : s.accept d 10 = .ok (s.push 10) := by
      simp [accept, hstate, readInQuotes, hd.isEscape_eq_false, hfirst]
    rw [hopen, ok_bind, answer_finish_inQuotes hstate, answer_finish_inQuotes (s := s.push 10) hstate]
    rfl
  | inCommentLine | inBlanks => simp [hstate, SplitState.isUncounted] at hcounted
  | lineStart =>
    rw [hstate] at hs
    exact absurd hs hc
  -- states that a text without carriage returns and escapes does not end in
  | escaped | escapedInQuotes | afterReturn | afterIgnoredReturn | finished =>
    rw [hstate] at hs
    exact absurd hs id

/-- A comment or a blank line is counted by its line feed and leaves nothing else. -/
theorem finish_feed_uncounted (hd : d.EndsOpenly) (h : s.state.isUncounted = true) :
    s.finish d = .ok (s.enter .finished) ∧
      ∃ blanks, s.accept d 10 >>= finish d =
        .ok ({ s.countLine with heldBlanks := blanks }.enter .finished) := by
  have hfeed := hd.isTerminator_feed
  cases hstate : s.state with
  | inCommentLine =>
    refine ⟨by simp [finish, endLastLine, hstate], s.heldBlanks, ?_⟩
    simp only [accept, hstate, readInCommentLine, hfeed, if_true]
    rfl
  | inBlanks =>
    refine ⟨by simp [finish, endLastLine, hstate], #[], ?_⟩
    simp only [accept, hstate, readInBlanks, hfeed, if_true]
    rfl
  | _ => simp [hstate, SplitState.isUncounted] at h

theorem Reaches.counted (h : Reaches d s t) (hs : s.lines.size ≤ s.fileLines) :
    t.lines.size ≤ t.fileLines := by
  induction h with
  | refl => exact hs
  | enter _ _ _ ih => exact ih
  | push _ _ ih => exact ih
  | closeField _ ih => exact ih
  | countLine _ ih => exact Nat.le_succ_of_le ih
  | discardLine _ ih => exact ih
  | hold _ _ ih => exact ih
  | @endLine t u _ he ih =>
    have hsize := endLine_size d t
    rw [he] at hsize
    rw [(ended_of_endLine he).fileLines]
    exact Nat.le_trans hsize (Nat.succ_le_succ ih)

end Splitter

/-! ## Reads -/

open Splitter

namespace Settings

def endState (s : Settings) (bytes : List UInt8) : Option SplitState :=
  match s.session.splitter.readAll s.dialect (Session.withoutMark bytes) with
  | .ok t => some t.state
  | .error _ => none

/-- Whether the last line is a comment or a blank line that only a line feed would count. -/
def endsUncounted (s : Settings) (bytes : List UInt8) : Bool :=
  (s.endState bytes).any SplitState.isUncounted

end Settings

namespace Reading

variable {s : Settings} {bytes : List UInt8}

theorem split_memory (s : Settings) (bytes : List UInt8) :
    split s (.memory bytes) =
      answer (s.session.splitter.readAll s.dialect (Session.withoutMark bytes) >>=
        finish s.dialect) := by
  have houtcome : (s.session.tokenizeAll s.dialect (.memory bytes)).outcome = outcomeOf
      (s.session.splitter.readAll s.dialect (Session.withoutMark bytes) >>= finish s.dialect) :=
    Session.tokenizeAll_start s.dialect s.headerLines s.columns.isSome s.chunkSize rfl
  obtain ⟨hfault, hsplitter⟩ := Prod.mk.inj houtcome
  unfold split
  dsimp only
  rw [hfault, hsplitter]
  cases s.session.splitter.readAll s.dialect (Session.withoutMark bytes) >>= finish s.dialect with
  | ok t => rfl
  | error halted => rfl

/-- What there is to split ends as the input does, and is not empty if there is more than a mark. -/
theorem exists_last (hne : bytes ≠ []) (hr : 13 ∉ bytes) (hlast : bytes.getLast? ≠ some 10)
    (hmark : bytes ≠ byteOrderMark) :
    ∃ text c, Session.withoutMark bytes = text ++ [c] ∧ 13 ∉ text ∧ c ≠ 13 ∧ c ≠ 10 := by
  have hsuffix := Session.withoutMark_suffix bytes
  have hrest : Session.withoutMark bytes ≠ [] := by
    unfold Session.withoutMark
    split_ifs with hprefixed
    · intro hnil
      exact hmark (hprefixed.eq_of_length_le (List.drop_eq_nil_iff.1 hnil)).symm
    · exact hne
  obtain ⟨text, c, hsplit⟩ := (List.eq_nil_or_concat _).resolve_left hrest
  rw [List.concat_eq_append] at hsplit
  rw [hsplit] at hsuffix
  refine ⟨text, c, hsplit, fun h => hr (hsuffix.subset (by simp [h])), ?_, ?_⟩
  · rintro rfl
    exact hr (hsuffix.subset (by simp))
  · rintro rfl
    obtain ⟨front, rfl⟩ := hsuffix
    simp at hlast

/-- What a line feed behind the last line changes: nothing, or that this line is counted. -/
theorem split_finalFeed (hd : s.dialect.EndsOpenly) (hne : bytes ≠ []) (hr : 13 ∉ bytes)
    (hlast : bytes.getLast? ≠ some 10) (hmark : bytes ≠ byteOrderMark)
    (hquote : s.dialect.isDelimiter 10 = true → s.endState bytes ≠ some .afterQuote) :
    (s.endsUncounted bytes = false →
      split s (.memory (bytes ++ [10])) = split s (.memory bytes)) ∧
    (s.endsUncounted bytes = true → ∃ (t : Splitter) (blanks : Array UInt8),
      t.lines.size ≤ t.fileLines ∧ split s (.memory bytes) = .ok (t.enter .finished) ∧
      split s (.memory (bytes ++ [10])) =
        .ok ({ t.countLine with heldBlanks := blanks }.enter .finished)) := by
  obtain ⟨text, c, hsplit, htext, hc, hfeed⟩ := exists_last hne hr hlast hmark
  have hmore : Session.withoutMark (bytes ++ [10]) = Session.withoutMark bytes ++ [10] :=
    withoutMark_line bytes (by decide) []
  rw [split_memory, split_memory, hmore, readAll_append]
  unfold Settings.endsUncounted
  unfold Settings.endState at hquote ⊢
  cases hread : s.session.splitter.readAll s.dialect (Session.withoutMark bytes) with
  | error halted => exact ⟨fun _ => rfl, fun h => by cases h⟩
  | ok t =>
    rw [hread] at hquote
    have hstart : s.dialect.LeadsTo 10 s.session.splitter.state := rfl
    have hleads : s.dialect.LeadsTo c t.state :=
      leadsTo_readAll hd htext hstart (hsplit ▸ hread) hc
    rw [ok_bind, ok_bind, readAll_singleton, readByte_of_leadsTo hleads]
    constructor
    · intro hcounted
      exact answer_finish_feed hd hleads hfeed hcounted fun h hstate =>
        hquote h (congrArg some hstate)
    · intro huncounted
      obtain ⟨hend, blanks, hcount⟩ := finish_feed_uncounted hd huncounted
      have hreached := moved_readAll s.dialect (Session.withoutMark bytes) s.session.splitter
      rw [hread] at hreached
      exact ⟨t, blanks, hreached.counted (Nat.le_refl 0), congrArg answer hend,
        congrArg answer hcount⟩

theorem readBytes_eq (type : FieldType) (s : Settings) (bytes : List UInt8) :
    readBytes type s bytes =
      s.check >>= fun _ => split s (.memory bytes) >>= ofSplitter type s := rfl

/-- A line that is counted later changes the remarks and perhaps the status of a read. -/
theorem ofSplitter_recounted (type : FieldType) (s : Settings) {t : Splitter}
    (blanks : Array UInt8) (ht : t.lines.size ≤ t.fileLines) :
    let u := { t.countLine with heldBlanks := blanks }
    (∃ fault, ofSplitter type s (t.enter .finished) = .error fault ∧
      ofSplitter type s (u.enter .finished) = .error fault) ∨
    ∃ first second, ofSplitter type s (t.enter .finished) = .ok first ∧
      ofSplitter type s (u.enter .finished) = .ok second ∧ second.data = first.data ∧
      second.rows = first.rows ∧ second.cols = first.cols ∧ second.headings = first.headings ∧
      second.remarks ≠ first.remarks := by
  intro u
  have hlines : Matrix.ofLines s.dialect type s.plan (u.enter .finished) =
      Matrix.ofLines s.dialect type s.plan (t.enter .finished) := rfl
  have hnames (cols : Nat) : nameColumns s (u.enter .finished) cols =
      nameColumns s (t.enter .finished) cols := rfl
  have hremarks : ignoredLines (u.enter .finished) ≠ ignoredLines (t.enter .finished) := by
    have hmore : ignoredLines (u.enter .finished) =
        [.ignoredLines t.lines.size (t.fileLines + 1)] := by
      refine if_pos ?_
      show t.fileLines + 1 ≠ t.lines.size
      omega
    rw [hmore, ignoredLines]
    split_ifs <;> simp [enter]
  rw [ofSplitter_eq, ofSplitter_eq, hlines]
  cases Matrix.ofLines s.dialect type s.plan (t.enter .finished) with
  | error fault => exact .inl ⟨fault, rfl, rfl⟩
  | ok matrix =>
    rw [ok_bind, ok_bind, hnames]
    cases nameColumns s (t.enter .finished) matrix.cols with
    | error fault => exact .inl ⟨fault, rfl, rfl⟩
    | ok names =>
      refine .inr ⟨_, _, rfl, rfl, rfl, rfl, rfl, rfl, fun h => hremarks ?_⟩
      exact List.append_cancel_left (List.append_cancel_right h)

end Reading

/-- A line feed behind the last line changes nothing but the count of the lines, and that just if
the last line is a comment or a blank line. -/
theorem readBytes_finalFeed (type : FieldType) (s : Settings) (bytes : List UInt8)
    (hescape : s.dialect.escapeChar = none) (hterminator : s.dialect.lineTerminator = none)
    (hne : bytes ≠ []) (hr : 13 ∉ bytes) (hlast : bytes.getLast? ≠ some 10)
    (hmark : bytes ≠ byteOrderMark)
    (hquote : s.dialect.isDelimiter 10 = true → s.endState bytes ≠ some .afterQuote) :
    (∃ fault, readBytes type s bytes = .error fault ∧
      readBytes type s (bytes ++ [10]) = .error fault) ∨
    ∃ first second, readBytes type s bytes = .ok first ∧
      readBytes type s (bytes ++ [10]) = .ok second ∧ second.data = first.data ∧
      second.rows = first.rows ∧ second.cols = first.cols ∧ second.headings = first.headings ∧
      (second.status = first.status ∧ second.remarks = first.remarks ↔
        s.endsUncounted bytes = false) := by
  obtain ⟨hsame, hcounted⟩ :=
    Reading.split_finalFeed ⟨hescape, hterminator⟩ hne hr hlast hmark hquote
  rw [Reading.readBytes_eq, Reading.readBytes_eq]
  cases s.check with
  | error fault => exact .inl ⟨fault, rfl, rfl⟩
  | ok =>
    rw [ok_bind, ok_bind]
    cases hends : s.endsUncounted bytes with
    | false =>
      rw [hsame hends]
      cases hread : Reading.split s (.memory bytes) >>= Reading.ofSplitter type s with
      | error fault => exact .inl ⟨fault, rfl, rfl⟩
      | ok first => exact .inr ⟨first, first, rfl, rfl, rfl, rfl, rfl, rfl, by simp⟩
    | true =>
      obtain ⟨t, blanks, ht, hend, hcount⟩ := hcounted hends
      rw [hend, hcount, ok_bind, ok_bind]
      rcases Reading.ofSplitter_recounted type s blanks ht with
        hfault | ⟨first, second, hfirst, hsecond, hdata, hrows, hcols, hnames, hremarks⟩
      · exact .inl hfault
      · exact .inr ⟨first, second, hfirst, hsecond, hdata, hrows, hcols, hnames, by simp [hremarks]⟩

/-- A quoted field that its last quote ends, behind a comment that is counted either way. -/
theorem readBytes_finalFeed_quoted :
    let bytes := CellValue.bytes "a,b\n#c\n1,\"2\""
    let s : Settings := { header := true }
    s.check = .ok () ∧ s.endState bytes = some .afterQuote ∧
    ((∃ fault, readBytes (.scalar .int) s bytes = .error fault ∧
      readBytes (.scalar .int) s (bytes ++ [10]) = .error fault) ∨
    ∃ first second, readBytes (.scalar .int) s bytes = .ok first ∧
      readBytes (.scalar .int) s (bytes ++ [10]) = .ok second ∧ second.data = first.data ∧
      second.rows = first.rows ∧ second.cols = first.cols ∧ second.headings = first.headings ∧
      (second.status = first.status ∧ second.remarks = first.remarks ↔
        s.endsUncounted bytes = false)) := by
  intro bytes s
  refine ⟨by decide +kernel, by decide +kernel, ?_⟩
  exact readBytes_finalFeed (.scalar .int) s bytes rfl rfl (by decide +kernel) (by decide +kernel)
    (by decide +kernel) (by decide +kernel) fun h => absurd h (by decide +kernel)

/-- A comment is counted with a line feed behind it and not without one. A line feed that is the
delimiter opens one more field behind a closing quote. -/
theorem finalFeed_differs :
    let delimited : Settings := { dialect := { delimiter := 10 } }
    let comment : List UInt8 := [49, 10, 35, 99]
    let quoted : List UInt8 := [34, 97, 34]
    let outcome (type : FieldType) (s : Settings) (bytes : List UInt8) :=
      (readBytes type s bytes).toOption.map fun r => (r.rows, r.cols, r.status, r.remarks)
    (∀ s ∈ [{}, delimited], s.check = .ok () ∧ s.dialect.escapeChar = none ∧
      s.dialect.lineTerminator = none) ∧
    (∀ bytes ∈ [comment, quoted], 13 ∉ bytes ∧ bytes.getLast?.any (· != 10) ∧
      bytes ≠ byteOrderMark) ∧
    outcome (.scalar .int) {} comment = some (1, 1, .success, []) ∧
    outcome (.scalar .int) {} (comment ++ [10]) = some (1, 1, .badLines, [.ignoredLines 1 2]) ∧
    outcome (.scalar .str) delimited quoted = some (1, 1, .success, []) ∧
    outcome (.scalar .str) delimited (quoted ++ [10]) = some (1, 2, .success, []) := by
  refine ⟨?_, ?_, ?_, ?_, ?_, ?_⟩
  all_goals decide +kernel

end TypedTable.Csv
