import TypedTable.Proofs.Csv.PlainLines

/-!
# Whole lines

A line without quotes is passed over, and then only counted, or its fields are put together and it
is ended: it is committed as it is, filled up with empty fields or dropped.
-/

set_option autoImplicit false

namespace TypedTable.Csv

namespace Dialect

/-- Whether a line has only blanks. With blanks for delimiters these are blanks as well. -/
def isBlankLine (d : Dialect) (line : List UInt8) : Bool :=
  line.all fun c => c == 10 || isSpaceOrTab c && (d.blankDelimited || c != d.delimiter)

/-- The number of fields that the line behind these records has to have, if any: the one that is
set, or that of the line before. -/
def requiredWidth (d : Dialect) (headerLines : Nat) (anyWidth : Bool)
    (records : List (Nat × List (List UInt8))) : Option Nat :=
  if headerLines ≤ records.length ∧ anyWidth = false then
    d.expectedFields <|> records.getLast?.map (·.2.length)
  else
    none

def fieldsOf (d : Dialect) (text : List UInt8) : List (List UInt8) :=
  match ({ anyWidth := true } : Splitter).readAll d.alone (text ++ [10]) with
  | .ok s => s.rows.headD []
  | .error _ => []

variable {d : Dialect} {text : List UInt8}

theorem plain_of_text (hterminator : d.lineTerminator = none) (ht : 10 ∉ text)
    (hplain : ∀ c ∈ text, c ≠ 13 ∧ d.isQuote c = false ∧ d.isEscape c = false) :
    ∀ c ∈ text, d.Plain c := by
  intro c hc
  obtain ⟨hreturn, hquote, hescape⟩ := hplain c hc
  have hfeed : c ≠ 10 := fun h => ht (h ▸ hc)
  exact ⟨by simp [endingBytes, hterminator, hfeed, hreturn], hquote, hescape⟩

theorem plain_of_write {texts : List (List UInt8)} {last content : List UInt8}
    (hterminator : d.lineTerminator = none)
    (hcontent : content = LineEnding.feed.write texts ++ last)
    (hfeed : ∀ text ∈ texts, 10 ∉ text) (hlast : 10 ∉ last)
    (hplain : ∀ c ∈ content, c ≠ 13 ∧ d.isQuote c = false ∧ d.isEscape c = false) :
    (∀ text ∈ texts, ∀ c ∈ text, d.Plain c) ∧ (∀ c ∈ last, d.Plain c) ∧
      (texts ≠ [] → d.isQuote 10 = false) := by
  have hmem {text : List UInt8} (hm : text ∈ texts) {c : UInt8} (hc : c ∈ text ++ [10]) :
      c ∈ content := by
    rw [hcontent]
    exact List.mem_append_left _ (mem_write_feed hm hc)
  refine ⟨fun text hm => ?_, ?_, fun hn => ?_⟩
  · exact plain_of_text hterminator (hfeed text hm) fun c hc =>
      hplain c (hmem hm (List.mem_append_left _ hc))
  · exact plain_of_text hterminator hlast fun c hc =>
      hplain c (hcontent ▸ List.mem_append_right _ hc)
  · obtain ⟨text, hm⟩ := List.exists_mem_of_ne_nil _ hn
    exact (hplain 10 (hmem hm (by simp))).2.1

theorem isBlankLine_text (hk : d.KeepsBlanks) (ht : 10 ∉ text) :
    d.isBlankLine text = text.all d.isHeldBlank := by
  induction text with
  | nil => rfl
  | cons c rest ih =>
    obtain ⟨hc, hrest⟩ := List.ne_and_not_mem_of_not_mem_cons ht
    have hfirst : (c == 10 || isSpaceOrTab c && (d.blankDelimited || c != d.delimiter)) =
        d.isHeldBlank c := by
      rw [beq_false_of_ne hc.symm, Bool.false_or, isHeldBlank]
      cases hblank : isSpaceOrTab c with
      | false => rfl
      | true => cases hb : d.blankDelimited <;> simp [hk c hblank]
    rw [isBlankLine, List.all_cons, List.all_cons, hfirst]
    exact congrArg (d.isHeldBlank c && ·) (ih hrest)

theorem isBlankLine_feed (d : Dialect) (text : List UInt8) :
    d.isBlankLine (text ++ [10]) = d.isBlankLine text := by
  simp [isBlankLine]

end Dialect

namespace Splitter

variable {d : Dialect} {base shadow s t u : Splitter} {c : UInt8} {text : List UInt8} {line : Nat}
  {records : List (Nat × List (List UInt8))} {fields : List (List UInt8)}

/-! ## The end of a line -/

def ended (s : Splitter) : Splitter :=
  match s.state with
  | .fieldStart | .inField => s.closeField
  | _ => s

theorem ended_others (s : Splitter) :
    s.ended.state = s.state ∧ s.ended.heldBlanks = s.heldBlanks := by
  unfold ended
  split <;> exact ⟨rfl, rfl⟩

theorem readByte_feed_open (hfeed : d.isTerminator 10 = true) (hs : s.state.isOpen = true) :
    s.readByte d 10 = s.ended.endLineTo d .lineStart := by
  rw [readByte_of_not_return d 10 s (by intro h; simp [h, SplitState.isOpen] at hs)
    (by intro h; simp [h, SplitState.isOpen] at hs), accept, ended]
  cases hstate : s.state with
  | fieldStart => exact if_pos hfeed
  | inField => exact if_pos hfeed
  | betweenFields => exact if_pos hfeed
  | inTrailingComment => exact if_pos hfeed
  | _ => simp [hstate, SplitState.isOpen] at hs

theorem endLastLine_open (hs : s.state.isOpen = true) : s.endLastLine d = s.ended.endLine d := by
  rw [endLastLine, ended]
  cases hstate : s.state with
  | fieldStart | inField | betweenFields | inTrailingComment => rfl
  | _ => simp [hstate, SplitState.isOpen] at hs

theorem Alike.ended (h : Alike.Open base shadow s u) :
    ∃ fields, base.Drafts fields [] s.ended ∧ shadow.Drafts fields [] u.ended := by
  obtain ⟨hopen, hstate, fields, rest, hallows, hs, hu⟩ := h
  unfold Splitter.ended
  rw [hstate]
  cases hcase : s.state with
  | fieldStart | inField => exact ⟨fields ++ [rest], hs.closeField, hu.closeField⟩
  | betweenFields | inTrailingComment =>
    rw [hcase] at hallows
    obtain rfl := hallows.1 (by decide)
    exact ⟨fields, hs, hu⟩
  | _ => simp [hcase, SplitState.isOpen] at hopen

/-- At `s` the line has these fields, and `t` is what has to be ended where the line ends. -/
structure Completes (d : Dialect) (s : Splitter) (text : List UInt8) (fields : List (List UInt8))
    (t : Splitter) : Prop where
  feed : s.readAll d (text ++ [10]) = t.endLineTo d .lineStart
  last : text ≠ [] → s.readAll d text >>= finish d = t.endLine d >>= fun v => .ok (v.enter .finished)
  drafts : s.Drafts fields [] t
  skipping : t.state.isSkipping = false
  heldBlanks : d.blankDelimited = true → t.heldBlanks = #[]

theorem Completes.atLine {v : Splitter} (h : Completes d s text fields t) (hs : s.AtLine d line)
    (hended : t.endLine d = .ok v) : (v.enter .lineStart).AtLine d (line + 1) := by
  have hlater := ended_of_endLine hended
  refine ⟨rfl, ?_, fun hb => hlater.heldBlanks.trans (h.heldBlanks hb)⟩
  rw [← hs.fileLines, ← h.drafts.fileLines]
  exact hlater.fileLines

theorem completes_open {v : Splitter} (hfeed : d.isTerminator 10 = true)
    (hread : s.readAll d text = .ok v) (hv : v.state.isOpen = true)
    (hdrafts : s.Drafts fields [] v.ended) (hheld : d.blankDelimited = true → v.heldBlanks = #[]) :
    Completes d s text fields v.ended where
  feed := by rw [readAll_append, hread, ok_bind, readAll_singleton, readByte_feed_open hfeed hv]
  last _ := by
    rw [hread, ok_bind, finish, endLastLine_open hv]
    rfl
  drafts := hdrafts
  skipping := by
    rw [(ended_others v).1]
    cases hstate : v.state <;> simp_all [SplitState.isOpen, SplitState.isSkipping]
  heldBlanks hb := (ended_others v).2.trans (hheld hb)

/-- An empty line that is not passed over has no fields. -/
theorem AtLine.completes_empty (hfeed : d.isTerminator 10 = true) (hs : s.AtLine d line)
    (hpass : d.passesOver line [] = false) (hdrafts : s.Drafts [] [] s) :
    Completes d s [] [] s where
  feed := by
    have hpass : d.skipsLine s.fileLines = false ∧ d.skipEmptyLines = false := by
      rw [hs.fileLines]
      simpa [Dialect.passesOver] using hpass
    rw [List.nil_append, readAll_singleton, hs.readByte_eq]
    simp [readAtLineStart, hpass.1, hpass.2, hfeed]
  last hn := absurd rfl hn
  drafts := hdrafts
  skipping := by
    rw [hs.state]
    rfl
  heldBlanks := hs.heldBlanks

theorem AtLine.completes_together (hk : d.KeepsBlanks) (hfeed : d.isTerminator 10 = true)
    (ht : ∀ c ∈ text, d.Plain c) (hs : s.AtLine d line) (hu : u.AtLine d.alone 0)
    (hpass : d.passesOver line text = false) (hdrafts : s.Drafts [] [] s)
    (hshadow : u.Drafts [] [] u) :
    ∃ fields t v, Completes d s text fields t ∧ Completes d.alone u text fields v := by
  have hpasses : d.alone.passesOver 0 text = false :=
    (passesOver_alone d 0 text).trans (passesOver_eq_false hpass).2
  by_cases hn : text = []
  · subst hn
    exact ⟨[], s, u, hs.completes_empty hfeed hpass hdrafts,
      hu.completes_empty hfeed hpasses hshadow⟩
  · obtain ⟨t, v, hreadS, hreadU, hopen⟩ :=
      hs.readAll_together hk ht hn hu.state hpass hdrafts hshadow
    obtain ⟨fields, hended, hendedU⟩ := Alike.ended hopen
    have hheld {e : Dialect} {line : Nat} {a b : Splitter} (ha : a.AtLine e line)
        (ht : ∀ c ∈ text, e.Plain c) (hread : a.readAll e text = .ok b) :
        e.blankDelimited = true → b.heldBlanks = #[] := by
      obtain ⟨b', hread', -, -, hheld⟩ := ha.readAll_text ht hn
      obtain rfl := Except.ok.inj (hread.symm.trans hread')
      exact hheld
    refine ⟨fields, t.ended, v.ended, ?_, ?_⟩
    · exact completes_open hfeed hreadS hopen.1 hended (hheld hs ht hreadS)
    · exact completes_open hfeed hreadU (hopen.2.state ▸ hopen.1) hendedU
        (hheld hu (fun c hc => (ht c hc).alone) hreadU)

/-! ## Lines that are passed over -/

theorem readAll_heldBlanks (ht : ∀ c ∈ text, d.Plain c) (hheld : text.all d.isHeldBlank = true)
    (hs : s.state = .inBlanks) :
    ∃ blanks, s.readAll d text = .ok { s with heldBlanks := blanks } ∧
      (d.blankDelimited = true → blanks = s.heldBlanks) := by
  induction text generalizing s with
  | nil => exact ⟨s.heldBlanks, rfl, fun _ => rfl⟩
  | cons c rest ih =>
    rw [List.all_cons, Bool.and_eq_true] at hheld
    obtain ⟨blanks, hread, hkept⟩ := readByte_heldBlank (ht c (by simp)) hheld.1 hs
    obtain ⟨later, hlater, hsame⟩ :=
      ih (s := { s with heldBlanks := blanks }) (fun b hb => ht b (by simp [hb])) hheld.2 hs
    refine ⟨later, ?_, fun hb => (hsame hb).trans (hkept hb)⟩
    rw [readAll_cons, hread, ok_bind, hlater]

theorem AtLine.readAll_passed (ht : ∀ c ∈ text, d.Plain c) (hn : text ≠ []) (hs : s.AtLine d line)
    (hpass : d.passesOver line text = true) :
    ∃ state blanks, s.readAll d text = .ok ({ s with heldBlanks := blanks }.enter state) ∧
      state.isPassing = true ∧ (d.blankDelimited = true → blanks = #[]) := by
  cases text with
  | nil => exact absurd rfl hn
  | cons c rest =>
    have hc := ht c (by simp)
    have hrest : ∀ b ∈ rest, d.Plain b := fun b hb => ht b (by simp [hb])
    rw [readAll_cons, hs.readByte_eq]
    by_cases hskips : d.skipsLine line = true
    · obtain ⟨state, hstate, hread⟩ := readAll_skipped (s := s.enter .inSkippedField) hrest rfl
      refine ⟨state, s.heldBlanks, ?_, by simp [SplitState.isPassing, hstate], hs.heldBlanks⟩
      rw [hs.readAtLineStart_skipped hc hskips, ok_bind, hread]
      rfl
    have hskips : d.skipsLine line = false := Bool.eq_false_iff.2 hskips
    by_cases hcomment : d.isComment c = true
    · refine ⟨.inCommentLine, s.heldBlanks, ?_, rfl, hs.heldBlanks⟩
      rw [hs.readAtLineStart_comment hc hskips hcomment, ok_bind, readAll_commentLine hrest rfl]
    have hcomment : d.isComment c = false := Bool.eq_false_iff.2 hcomment
    have hblank : d.skipEmptyLines = true ∧ d.isHeldBlank c = true ∧
        rest.all d.isHeldBlank = true := by
      simpa [Dialect.passesOver, hskips, hcomment] using hpass
    obtain ⟨blanks, hread, hkept⟩ :=
      hs.readAtLineStart_blank hc hskips hcomment hblank.1 hblank.2.1
    obtain ⟨later, hlater, hsame⟩ := readAll_heldBlanks
      (s := { s with heldBlanks := blanks }.enter .inBlanks) hrest hblank.2.2 rfl
    refine ⟨.inBlanks, later, ?_, rfl, fun hb => ?_⟩
    · rw [hread, ok_bind, hlater]
      rfl
    · exact ((hsame hb).trans (hkept hb)).trans (hs.heldBlanks hb)

structure Passed (d : Dialect) (s t : Splitter) : Prop where
  state : t.state = .lineStart
  headerLines : t.headerLines = s.headerLines
  anyWidth : t.anyWidth = s.anyWidth
  fileLines : t.fileLines = s.fileLines + 1
  firstSize : t.stream.firstSize = s.stream.firstSize
  keeps : t.Keeps s.records [] []
  heldBlanks : d.blankDelimited = true → t.heldBlanks = #[]

theorem readByte_feed_passing (hfeed : d.isTerminator 10 = true) (hs : s.state.isPassing = true)
    (hkeeps : s.Keeps s.records [] []) (hheld : d.blankDelimited = true → s.heldBlanks = #[]) :
    ∃ t, s.readByte d 10 = .ok t ∧ Passed d s t := by
  rw [readByte_of_not_return d 10 s
    (by intro h; simp [h, SplitState.isPassing, SplitState.isSkipped] at hs)
    (by intro h; simp [h, SplitState.isPassing, SplitState.isSkipped] at hs), accept]
  have hskipped (h : s.state.isSkipping = true) : ∃ t, s.endLineTo d .lineStart = .ok t ∧
      Passed d s t := by
    rw [endLineTo, endLine_skipped d h]
    exact ⟨_, rfl, rfl, rfl, rfl, rfl, firstSize_dropLast _ _,
      hkeeps.countLine.discardLine.enter _, hheld⟩
  cases hstate : s.state with
  | inCommentLine =>
    refine ⟨s.countLine.enter .lineStart, ?_, rfl, rfl, rfl, rfl, rfl, hkeeps.countLine.enter _,
      hheld⟩
    simp [readInCommentLine, hfeed]
  | inBlanks =>
    refine ⟨{ s.countLine with heldBlanks := #[] }.enter .lineStart, ?_, rfl, rfl, rfl, rfl, rfl,
      (hkeeps.countLine.hold #[]).enter _, fun _ => rfl⟩
    simp [readInBlanks, hfeed]
  | skippedFieldStart =>
    rw [readAtSkippedField, if_pos hfeed]
    exact hskipped (by rw [hstate]; rfl)
  | inSkippedField =>
    rw [readInSkippedField, if_pos hfeed]
    exact hskipped (by rw [hstate]; rfl)
  | _ => simp [hstate, SplitState.isPassing, SplitState.isSkipped] at hs

theorem Passed.of_line {state : SplitState} {blanks : Array UInt8}
    (h : Passed d ({ s with heldBlanks := blanks }.enter state) t) : Passed d s t :=
  ⟨h.state, h.headerLines, h.anyWidth, h.fileLines, h.firstSize, h.keeps, h.heldBlanks⟩

theorem Passed.atLine (h : Passed d s t) (hs : s.AtLine d line) : t.AtLine d (line + 1) :=
  ⟨h.state, h.fileLines.trans (congrArg (· + 1) hs.fileLines), h.heldBlanks⟩

theorem AtLine.readAll_passes (hfeed : d.isTerminator 10 = true) (hquote : d.isQuote 10 = false)
    (ht : ∀ c ∈ text, d.Plain c) (hs : s.AtLine d line) (hpass : d.passesOver line text = true)
    (hkeeps : s.Keeps s.records [] []) :
    ∃ t, s.readAll d (text ++ [10]) = .ok t ∧ Passed d s t := by
  by_cases hn : text = []
  · subst hn
    rw [List.nil_append, readAll_singleton, hs.readByte_eq, readAtLineStart]
    have hpass : d.skipsLine s.fileLines = true ∨ d.skipEmptyLines = true := by
      rw [hs.fileLines]
      simpa [Dialect.passesOver] using hpass
    split_ifs with hskips hempty
    · rw [readAtSkippedLine, hquote, if_neg (by simp), if_pos hfeed, endLineTo,
        endLine_skipped d rfl]
      exact ⟨_, rfl, rfl, rfl, rfl, rfl, firstSize_dropLast _ _,
        ((hkeeps.enter _).countLine.discardLine).enter _, hs.heldBlanks⟩
    · exact ⟨_, rfl, hs.state, rfl, rfl, rfl, rfl, hkeeps.countLine, hs.heldBlanks⟩
    · exact absurd (hpass.resolve_left hskips) hempty
  · obtain ⟨state, blanks, hread, hstate, hheld⟩ := hs.readAll_passed ht hn hpass
    obtain ⟨t, hfed, hpassed⟩ := readByte_feed_passing
      (s := { s with heldBlanks := blanks }.enter state) hfeed hstate
      ((hkeeps.hold blanks).enter state) hheld
    refine ⟨t, ?_, hpassed.of_line⟩
    rw [readAll_append, hread, ok_bind, readAll_singleton, hfed]

theorem AtLine.finish_eq (hs : s.AtLine d line) : s.finish d = .ok (s.enter .finished) := by
  rw [finish, endLastLine, hs.state]
  rfl

/-- Where the input ends nothing is left of a line that would be passed over. -/
theorem AtLine.finish_passed (ht : ∀ c ∈ text, d.Plain c) (hn : text ≠ []) (hs : s.AtLine d line)
    (hpass : d.passesOver line text = true) (hkeeps : s.Keeps s.records [] []) :
    ∃ t, s.readAll d text >>= finish d = .ok t ∧ t.Keeps s.records [] [] := by
  obtain ⟨state, blanks, hread, hstate, -⟩ := hs.readAll_passed ht hn hpass
  have hkept := (hkeeps.hold blanks).enter state
  rw [hread, ok_bind]
  by_cases hskipping : state.isSkipping = true
  · rw [finish, endLastLine]
    cases state with
    | skippedFieldStart | inSkippedField =>
      refine ⟨_, ?_, hkept.countLine.discardLine.enter .finished⟩
      simp [enter, endLine, SplitState.isSkipping]
    | _ => simp_all [SplitState.isPassing, SplitState.isSkipped, SplitState.isSkipping]
  · rw [finish, endLastLine]
    cases state with
    | inCommentLine | inBlanks => exact ⟨_, rfl, hkept.enter .finished⟩
    | _ => simp_all [SplitState.isPassing, SplitState.isSkipped, SplitState.isSkipping]

/-! ## Lines on their own -/

theorem drafts_start (headerLines : Nat) (anyWidth : Bool) :
    let s : Splitter := { headerLines := headerLines, anyWidth := anyWidth }
    s.Drafts [] [] s :=
  ⟨⟨holds_empty headerLines anyWidth, rfl⟩, rfl, rfl, rfl, rfl⟩

/-- A line that may have any width is committed as it is. -/
theorem Completes.commit (h : Completes d s text fields t) (hwidth : s.anyWidth = true) :
    s.readAll d (text ++ [10]) = .ok (t.commitLine.enter .lineStart) ∧
      (t.commitLine.enter .lineStart).rows = s.rows ++ [fields] := by
  constructor
  · rw [h.feed, endLineTo, endLine_anyWidth d (h.drafts.anyWidth.trans hwidth) h.skipping]
    rfl
  · have hrows := (h.drafts.keeps.commitLine.enter .lineStart).holds.rows_eq
    rw [hrows, List.map_append]
    congr 1
    rw [records, List.map_map]
    rfl

/-- A line that is not passed over has the fields that it has on its own. -/
theorem AtLine.completes (hk : d.KeepsBlanks) (hfeed : d.isTerminator 10 = true)
    (ht : ∀ c ∈ text, d.Plain c) (hs : s.AtLine d line) (hpass : d.passesOver line text = false)
    (hkeeps : s.Keeps s.records [] []) :
    ∃ t, Completes d s text (d.fieldsOf text) t := by
  obtain ⟨fields, t, v, hline, halone⟩ := hs.completes_together hk hfeed ht
    (atLine_start d.alone 0 true) hpass ⟨hkeeps, rfl, rfl, rfl, rfl⟩ (drafts_start 0 true)
  obtain ⟨hread, hrows⟩ := halone.commit rfl
  have hfields : d.fieldsOf text = fields := by
    rw [Dialect.fieldsOf, hread]
    exact congrArg (List.headD · []) hrows
  exact ⟨t, hfields ▸ hline⟩

/-! ## The width of a line -/

theorem Drafts.closeFields (h : base.Drafts fields [] s) (count : Nat) :
    base.Drafts (fields ++ List.replicate count []) [] (s.closeFields count) := by
  induction count generalizing s fields with
  | zero =>
    rw [List.replicate_zero, List.append_nil]
    exact h
  | succ count ih =>
    have hnext := ih h.closeField
    rwa [List.append_assoc] at hnext

theorem Drafts.commitLine (h : base.Drafts fields [] s) :
    s.commitLine.Keeps (base.records ++ [(base.fileLines + 1, fields)]) [] [] := by
  rw [← h.fileLines]
  exact h.keeps.commitLine

theorem Drafts.discardLine (h : base.Drafts fields [] s) :
    s.countLine.discardLine.Keeps base.records [] [] := h.keeps.countLine.discardLine

theorem Drafts.openFields (h : base.Drafts fields [] s) : s.openFields = fields.length :=
  h.keeps.holds.openFields

theorem Keeps.requiredFields {rest : List UInt8} (h : s.Keeps records fields rest) :
    s.requiredFields d = d.requiredWidth s.headerLines s.anyWidth records := by
  rw [Splitter.requiredFields, Dialect.requiredWidth, h.size, h.lastLine]

theorem Drafts.requiredFields (h : base.Drafts fields [] s) :
    s.requiredFields d = d.requiredWidth base.headerLines base.anyWidth base.records := by
  rw [h.keeps.requiredFields, h.headerLines, h.anyWidth]

end Splitter

end TypedTable.Csv
