import TypedTable.Proofs.Csv.WholeLines

/-!
# Spaces at the beginning of fields

Without quotes, to pass over the spaces at the beginning of fields is to take them off the fields
afterwards. The splitter that passes over them is still at the start of a field where the other one
is in a field of spaces. Otherwise the two are in the same state, and the one has the fields of the
other without those spaces.
-/

set_option autoImplicit false

namespace TypedTable.Csv

def trimmed (field : List UInt8) : List UInt8 := field.dropWhile (· == 32)

def trimmedRecord (record : Nat × List (List UInt8)) : Nat × List (List UInt8) :=
  (record.1, record.2.map trimmed)

section Trimmed

variable {field : List UInt8} {c : UInt8}

theorem trimmed_concat (h : trimmed field ≠ [] ∨ c ≠ 32) :
    trimmed (field ++ [c]) = trimmed field ++ [c] := by
  unfold trimmed at h ⊢
  rw [List.dropWhile_append]
  by_cases hn : field.dropWhile (· == 32) = []
  · have hc : c ≠ 32 := h.resolve_left (absurd hn)
    simp [hn, hc]
  · simp [hn]

theorem trimmed_space (h : trimmed field = []) : trimmed (field ++ [32]) = [] := by
  unfold trimmed at h ⊢
  rw [List.dropWhile_append, h]
  rfl

end Trimmed

namespace Dialect

def skippingSpaces (d : Dialect) (skips : Bool) : Dialect := { d with skipInitialSpace := skips }

/-- The space delimits nothing, ends nothing and begins no comment. -/
structure KeepsSpaces (d : Dialect) : Prop where
  delimiter : d.delimiter ≠ 32
  terminator : d.isTerminator 32 = false
  comment : d.isComment 32 = false

structure Unquoted (d : Dialect) (c : UInt8) : Prop where
  quote : d.isQuote c = false
  escape : d.isEscape c = false

variable {d : Dialect}

theorem KeepsSpaces.skippingSpaces (hd : d.KeepsSpaces) (skips : Bool) :
    (d.skippingSpaces skips).KeepsSpaces := ⟨hd.delimiter, hd.terminator, hd.comment⟩

theorem Unquoted.skippingSpaces {c : UInt8} (hc : d.Unquoted c) (skips : Bool) :
    (d.skippingSpaces skips).Unquoted c := ⟨hc.quote, hc.escape⟩

end Dialect

/-- Whether no bytes of a field are there and no quotes are open. -/
def SplitState.isBare : SplitState → Bool
  | .inField | .escaped | .inQuotes | .escapedInQuotes | .afterQuote | .inSkippedQuotes
  | .afterSkippedQuote => false
  | _ => true

namespace Splitter

variable {d : Dialect} {s t : Splitter} {c : UInt8} {rest : List UInt8}

theorem pushes_eq (bytes : List UInt8) (s : Splitter) :
    bytes.foldl push s = { s with stream := bytes.foldl FieldStream.push s.stream } := by
  induction bytes generalizing s with
  | nil => rfl
  | cons byte rest ih => exact ih (s.push byte)

theorem firstSize_pushes (bytes : List UInt8) (stream : FieldStream) :
    (bytes.foldl FieldStream.push stream).firstSize = stream.firstSize := by
  induction bytes generalizing stream with
  | nil => rfl
  | cons byte rest ih => exact ih (stream.push byte)

theorem Keeps.pushes {records : List (Nat × List (List UInt8))} {fields : List (List UInt8)}
    (h : s.Keeps records fields rest) (bytes : List UInt8) :
    (bytes.foldl Splitter.push s).Keeps records fields (rest ++ bytes) := by
  induction bytes generalizing s rest with
  | nil => rwa [List.append_nil]
  | cons byte bytes ih =>
    have hlater := ih (h.push byte)
    rwa [List.append_assoc] at hlater

/-! ## The fields of the one and of the other -/

/-- `s` has what `t` has, without the spaces at the beginning of fields. Of the field under
construction `t` has the bytes `rest`. -/
structure Trims (rest : List UInt8) (s t : Splitter) : Prop where
  headerLines : s.headerLines = t.headerLines
  anyWidth : s.anyWidth = t.anyWidth
  fileLines : s.fileLines = t.fileLines
  heldBlanks : s.heldBlanks = t.heldBlanks
  warnings : s.warnings = t.warnings
  firstSize : s.stream.firstSize = t.stream.firstSize
  contents : ∃ records fields,
    s.Keeps (records.map trimmedRecord) (fields.map trimmed) (trimmed rest) ∧
      t.Keeps records fields rest

namespace Trims

theorem enter (h : Trims rest s t) (state state' : SplitState) :
    Trims rest (s.enter state) (t.enter state') := by
  obtain ⟨records, fields, hs, ht⟩ := h.contents
  exact { h with contents := ⟨records, fields, hs.enter state, ht.enter state'⟩ }

theorem push (h : Trims rest s t) (hc : trimmed rest ≠ [] ∨ c ≠ 32) :
    Trims (rest ++ [c]) (s.push c) (t.push c) := by
  obtain ⟨records, fields, hs, ht⟩ := h.contents
  refine { h with contents := ⟨records, fields, ?_, ht.push c⟩ }
  rw [trimmed_concat hc]
  exact hs.push c

theorem pushSpace (h : Trims rest s t) (hrest : trimmed rest = []) :
    Trims (rest ++ [32]) s (t.push 32) := by
  obtain ⟨records, fields, hs, ht⟩ := h.contents
  refine { h with contents := ⟨records, fields, ?_, ht.push 32⟩ }
  rwa [trimmed_space hrest, ← hrest]

theorem pushes (h : Trims [] s t) (bytes : List UInt8) :
    Trims bytes ((trimmed bytes).foldl Splitter.push s) (bytes.foldl Splitter.push t) := by
  obtain ⟨records, fields, hs, ht⟩ := h.contents
  have hpushed : ((trimmed bytes).foldl Splitter.push s).Keeps (records.map trimmedRecord)
      (fields.map trimmed) (trimmed bytes) := hs.pushes (trimmed bytes)
  have hpushed' : (bytes.foldl Splitter.push t).Keeps records fields bytes := ht.pushes bytes
  rw [pushes_eq] at hpushed hpushed' ⊢
  rw [pushes_eq]
  exact { h with
    firstSize := by
      simp only [firstSize_pushes]
      exact h.firstSize
    contents := ⟨records, fields, hpushed, hpushed'⟩ }

theorem closeField (h : Trims rest s t) : Trims [] s.closeField t.closeField := by
  obtain ⟨records, fields, hs, ht⟩ := h.contents
  refine { h with contents := ⟨records, fields ++ [rest], ?_, ht.closeField⟩ }
  rw [List.map_append]
  exact hs.closeField

theorem closeFields (h : Trims [] s t) (count : Nat) :
    Trims [] (s.closeFields count) (t.closeFields count) := by
  induction count generalizing s t with
  | zero => exact h
  | succ count ih => exact ih h.closeField

theorem countLine (h : Trims rest s t) : Trims rest s.countLine t.countLine := by
  obtain ⟨records, fields, hs, ht⟩ := h.contents
  exact { h with
    fileLines := congrArg (· + 1) h.fileLines
    contents := ⟨records, fields, hs.countLine, ht.countLine⟩ }

theorem discardLine (h : Trims [] s t) : Trims [] s.discardLine t.discardLine := by
  obtain ⟨records, fields, hs, ht⟩ := h.contents
  exact { h with
    firstSize := by
      simp only [Splitter.discardLine, firstSize_dropLast]
      exact h.firstSize
    contents := ⟨records, [], hs.discardLine, ht.discardLine⟩ }

theorem hold (h : Trims rest s t) (blanks : Array UInt8) :
    Trims rest { s with heldBlanks := blanks } { t with heldBlanks := blanks } := by
  obtain ⟨records, fields, hs, ht⟩ := h.contents
  exact { h with
    heldBlanks := rfl
    contents := ⟨records, fields, hs.hold blanks, ht.hold blanks⟩ }

theorem warn (h : Trims rest s t) (warning : Warning) :
    Trims rest { s with warnings := s.warnings.push warning }
      { t with warnings := t.warnings.push warning } := by
  obtain ⟨records, fields, hs, ht⟩ := h.contents
  exact { h with
    warnings := congrArg (·.push warning) h.warnings
    contents := ⟨records, fields, hs.warn _, ht.warn _⟩ }

theorem commitLine (h : Trims [] s t) : Trims [] s.commitLine t.commitLine := by
  obtain ⟨records, fields, hs, ht⟩ := h.contents
  refine { h with
    fileLines := congrArg (· + 1) h.fileLines
    contents := ⟨records ++ [(t.fileLines + 1, fields)], [], ?_, ht.commitLine⟩ }
  rw [List.map_append, ← h.fileLines]
  exact hs.commitLine

theorem openFields (h : Trims rest s t) : s.openFields = t.openFields := by
  obtain ⟨records, fields, hs, ht⟩ := h.contents
  rw [hs.holds.openFields, ht.holds.openFields, List.length_map]

theorem requiredFields (h : Trims rest s t) :
    s.requiredFields d = t.requiredFields d := by
  obtain ⟨records, fields, hs, ht⟩ := h.contents
  have hlast : (records.map trimmedRecord).getLast?.map (·.2.length) =
      records.getLast?.map (·.2.length) := by
    rw [List.getLast?_map, Option.map_map]
    congr 1
    funext record
    exact List.length_map trimmed
  rw [hs.requiredFields, ht.requiredFields, Dialect.requiredWidth, Dialect.requiredWidth,
    h.headerLines, h.anyWidth, List.length_map, hlast]

theorem checkRoom (h : Trims rest s t) (count : Nat) :
    s.stream.checkRoom count = t.stream.checkRoom count := by
  obtain ⟨records, fields, hs, ht⟩ := h.contents
  have hsize : s.stream.size = t.stream.size := by
    rw [FieldStream.size, FieldStream.size, hs.holds.stream.size, ht.holds.stream.size]
    simp [trimmedRecord, Function.comp_def]
  exact FieldStream.checkRoom_congr hsize h.firstSize count

end Trims

abbrev Matched (P : Splitter → Splitter → Prop) :
    Except (Halted Splitter) Splitter → Except (Halted Splitter) Splitter → Prop :=
  Agree (fun _ s t => ∃ rest, Trims rest s t) (fun _ => False) P

theorem Trims.endLine (h : Trims [] s t) (hstate : s.state.isSkipping = t.state.isSkipping) :
    Matched (Trims []) (s.endLine d) (t.endLine d) := by
  have hgone := h.countLine.discardLine
  unfold Splitter.endLine
  rw [hstate, h.requiredFields (d := d), h.openFields]
  split_ifs
  · exact .ok hgone
  cases t.requiredFields d with
  | none => exact .ok h.commitLine
  | some width =>
    dsimp only
    split_ifs
    · have hwarning : (⟨s.countLine.discardLine.fileLines, width, t.openFields⟩ : Warning) =
          ⟨t.countLine.discardLine.fileLines, width, t.openFields⟩ := by rw [hgone.fileLines]
      rw [rejectLine, rejectLine, h.openFields]
      cases d.onBadLines with
      | error => exact .error (by dsimp only; rw [hgone.fileLines]) ⟨[], hgone⟩
      | warn =>
        dsimp only
        rw [hwarning]
        exact .ok (hgone.warn _)
      | skip => exact .ok hgone
    · unfold Splitter.padLine
      rw [h.checkRoom]
      split_ifs
      · exact .ok h.commitLine
      · cases t.stream.checkRoom (width - t.openFields) with
        | error fault => exact .error rfl ⟨[], h⟩
        | ok room => exact .ok (h.closeFields _).commitLine

/-! ## The states of the one and of the other -/

/-- The splitters are in the same state, with bytes of the same field or of none, or `t` is in a
field of spaces that `s` has passed over. -/
inductive Trimming (d : Dialect) : Splitter → Splitter → Prop
  | bare {s t : Splitter} (h : Trims [] s t) (hstate : s.state = t.state)
    (hbare : t.state.isBare = true) : Trimming d s t
  | inside {s t : Splitter} {rest : List UInt8} (h : Trims rest s t) (hrest : trimmed rest ≠ [])
    (hs : s.state = .inField) (ht : t.state = .inField) : Trimming d s t
  | behind {s t : Splitter} {rest : List UInt8} (h : Trims rest s t) (hrest : trimmed rest = [])
    (hblanks : d.blankDelimited = false) (hs : s.state = .fieldStart) (ht : t.state = .inField) :
    Trimming d s t

theorem isBare_afterDelimiter (d : Dialect) : (afterDelimiter d).isBare = true := by
  unfold afterDelimiter
  split_ifs <;> rfl

theorem Trims.enter_ok (h : Trims [] s t) {state : SplitState} (hbare : state.isBare = true) :
    Matched (Trimming d) (.ok (s.enter state)) (.ok (t.enter state)) :=
  .ok (.bare (h.enter state state) rfl hbare)

theorem Trims.endLineTo_entered (h : Trims [] s t)
    (hstate : s.state.isSkipping = t.state.isSkipping) (state : SplitState) :
    Matched (fun a b => Trims [] a b ∧ a.state = state ∧ b.state = state) (s.endLineTo d state)
      (t.endLineTo d state) :=
  (h.endLine hstate).bind fun _ _ h => .ok ⟨h.enter state state, rfl, rfl⟩

theorem Trims.endLineTo (h : Trims [] s t) (hstate : s.state.isSkipping = t.state.isSkipping)
    {state : SplitState} (hbare : state.isBare = true) :
    Matched (Trimming d) (s.endLineTo d state) (t.endLineTo d state) :=
  (h.endLineTo_entered hstate state).mono fun _ _ ⟨h, ha, hb⟩ =>
    .bare h (ha.trans hb.symm) (hb ▸ hbare)

/-! ## Bytes that both read alike -/

section Bytes

variable (hc : d.Unquoted c)

include hc

theorem Trims.readAtFieldStart (hother : d.blankDelimited = true ∨ c ≠ 32) (h : Trims [] s t)
    (hs : s.state = .fieldStart) (ht : t.state = .fieldStart) :
    Matched (Trimming d) (s.readAtFieldStart d c) (t.readAtFieldStart d c) := by
  have hinitial : d.isInitialSpace c = false := by
    rcases hother with hb | hc <;> simp [Dialect.isInitialSpace, *]
  have hstate : s.closeField.state = t.closeField.state := hs.trans ht.symm
  have hbare : t.closeField.state.isBare = true := congrArg SplitState.isBare ht
  unfold Splitter.readAtFieldStart
  simp only [hc.quote, hc.escape, hinitial, Bool.false_eq_true, if_false]
  split_ifs with _ _ hdelimiter
  · exact h.closeField.endLineTo (congrArg _ hstate) rfl
  · exact h.closeField.enter_ok rfl
  · exact h.enter_ok rfl
  · exact .ok (.bare h.closeField hstate hbare)
  · exact h.closeField.enter_ok rfl
  · have hne : c ≠ 32 := hother.elim (fun hb hspace => by
      simp [Dialect.isDelimiter, hb, hspace, Dialect.isSpaceOrTab] at hdelimiter) id
    refine .ok (.inside ((h.push (.inr hne)).enter _ _) ?_ rfl rfl)
    rw [trimmed_concat (.inr hne)]
    simp

theorem Trims.readAtOtherStart (hother : c ≠ 32) (h : Trims [] s t) :
    Matched (Trimming d) ((s.enter .fieldStart).readAtFieldStart d c)
      ((t.enter .fieldStart).readAtFieldStart d c) :=
  (h.enter .fieldStart .fieldStart).readAtFieldStart hc (.inr hother) rfl rfl

theorem Trims.readInField (h : Trims rest s t) (hrest : trimmed rest ≠ []) (hs : s.state = .inField)
    (ht : t.state = .inField) : Matched (Trimming d) (s.readInField d c) (t.readInField d c) := by
  have hstate : s.closeField.state = t.closeField.state := hs.trans ht.symm
  unfold Splitter.readInField
  simp only [hc.escape, Bool.false_eq_true, if_false]
  split_ifs
  · exact h.closeField.endLineTo (congrArg _ hstate) rfl
  · exact h.closeField.enter_ok rfl
  · exact h.closeField.enter_ok (isBare_afterDelimiter d)
  · exact h.closeField.enter_ok rfl
  · refine .ok (.inside (h.push (.inl hrest)) ?_ hs ht)
    rw [trimmed_concat (.inl hrest)]
    simp

omit hc in
theorem ne_space_of_not_blank (hblank : ¬ Dialect.isSpaceOrTab c = true) : c ≠ 32 := by
  rintro rfl
  exact hblank rfl

section SameState

variable (h : Trims [] s t) (hstate : s.state = t.state) (hbare : t.state.isBare = true)

include h hstate hbare

theorem Trims.readBetweenFields :
    Matched (Trimming d) (s.readBetweenFields d c) (t.readBetweenFields d c) := by
  unfold Splitter.readBetweenFields
  split_ifs with _ _ _ hblank
  · exact h.endLineTo (congrArg _ hstate) rfl
  · exact h.enter_ok rfl
  · exact h.enter_ok rfl
  · exact .ok (.bare h hstate hbare)
  · exact h.readAtOtherStart hc (ne_space_of_not_blank hblank)

omit hc in
theorem Trims.readInTrailingComment :
    Matched (Trimming d) (s.readInTrailingComment d c) (t.readInTrailingComment d c) := by
  unfold Splitter.readInTrailingComment
  split_ifs
  · exact h.endLineTo (congrArg _ hstate) rfl
  · exact h.enter_ok rfl
  · exact .ok (.bare h hstate hbare)

omit hc in
theorem Trims.readInCommentLine :
    Matched (Trimming d) (.ok (s.readInCommentLine d c)) (.ok (t.readInCommentLine d c)) := by
  unfold Splitter.readInCommentLine
  split_ifs
  · exact h.countLine.enter_ok rfl
  · exact h.countLine.enter_ok rfl
  · exact .ok (.bare h hstate hbare)

omit hstate hbare in
theorem Trims.readAtSkippedLine :
    Matched (Trimming d) (s.readAtSkippedLine d c) (t.readAtSkippedLine d c) := by
  unfold Splitter.readAtSkippedLine
  simp only [hc.quote, Bool.false_eq_true, if_false]
  split_ifs
  · exact (h.enter _ _).endLineTo rfl rfl
  · exact h.enter_ok rfl

theorem Trims.readAtSkippedField :
    Matched (Trimming d) (s.readAtSkippedField d c) (t.readAtSkippedField d c) := by
  unfold Splitter.readAtSkippedField
  simp only [hc.quote, Bool.false_eq_true, if_false]
  split_ifs
  · exact h.endLineTo (congrArg _ hstate) rfl
  · exact h.countLine.discardLine.enter_ok rfl
  · exact .ok (.bare h hstate hbare)
  · exact h.enter_ok rfl

omit hc in
theorem Trims.readInSkippedField :
    Matched (Trimming d) (s.readInSkippedField d c) (t.readInSkippedField d c) := by
  unfold Splitter.readInSkippedField
  split_ifs
  · exact h.endLineTo (congrArg _ hstate) rfl
  · exact h.countLine.discardLine.enter_ok rfl
  · exact h.enter_ok rfl
  · exact .ok (.bare h hstate hbare)

/-- The first byte of a line, unless it is a space at the beginning of a field. -/
theorem Trims.readAtLineStart (hother : d.blankDelimited = true ∨ c ≠ 32) :
    Matched (Trimming d) (s.readAtLineStart d c) (t.readAtLineStart d c) := by
  have hskips : d.skipsLine s.fileLines = d.skipsLine t.fileLines := by rw [h.fileLines]
  unfold Splitter.readAtLineStart
  rw [hskips]
  split_ifs with _ _ _ _ _ _ hblank hb
  · exact h.readAtSkippedLine hc
  · exact .ok (.bare h.countLine hstate hbare)
  · exact h.endLineTo (congrArg _ hstate) rfl
  · exact h.countLine.enter_ok rfl
  · exact h.enter_ok rfl
  · exact h.enter_ok rfl
  · exact h.enter_ok rfl
  · exact h.enter_ok rfl
  · exact (h.hold #[c]).enter_ok rfl
  · exact h.readAtOtherStart hc (hother.resolve_left hb)
  · exact h.readAtOtherStart hc (ne_space_of_not_blank hblank)

theorem Trims.readInBlanks (hblanks : d.blankDelimited = true) :
    Matched (Trimming d) (s.readInBlanks d c) (t.readInBlanks d c) := by
  unfold Splitter.readInBlanks
  simp only [hblanks, if_true]
  split_ifs with _ _ _ hblank
  · exact (h.countLine.hold #[]).enter_ok rfl
  · exact (h.countLine.hold #[]).enter_ok rfl
  · exact h.enter_ok rfl
  · exact .ok (.bare h hstate hbare)
  · exact h.readAtOtherStart hc (ne_space_of_not_blank hblank)

/-- A byte that does not depend on whether spaces are passed over. -/
theorem Trims.accept
    (hother : d.blankDelimited = true ∨
      t.state ≠ .inBlanks ∧ (c = 32 → t.state ≠ .lineStart ∧ t.state ≠ .fieldStart)) :
    Matched (Trimming d) (s.accept d c) (t.accept d c) := by
  have hfirst (hstart : t.state = .lineStart ∨ t.state = .fieldStart) :
      d.blankDelimited = true ∨ c ≠ 32 :=
    hother.imp_right fun h hspace => hstart.elim (h.2 hspace).1 (h.2 hspace).2
  unfold Splitter.accept
  rw [hstate]
  cases ht : t.state with
  | lineStart => exact h.readAtLineStart hc hstate hbare (hfirst (.inl ht))
  | fieldStart => exact h.readAtFieldStart hc (hfirst (.inr ht)) (hstate.trans ht) ht
  | betweenFields => exact h.readBetweenFields hc hstate hbare
  | inTrailingComment => exact h.readInTrailingComment hstate hbare
  | inCommentLine => exact h.readInCommentLine hstate hbare
  | inBlanks => exact h.readInBlanks hc hstate hbare (hother.resolve_right fun h => h.1 ht)
  | skippedFieldStart => exact h.readAtSkippedField hc hstate hbare
  | inSkippedField => exact h.readInSkippedField hstate hbare
  | afterReturn | afterIgnoredReturn | finished => exact .ok (.bare h hstate hbare)
  | _ => simp [ht, SplitState.isBare] at hbare

end SameState

end Bytes

/-! ## Bytes that only the one passes over -/

section Skips

variable (skips : Bool)

theorem readAtFieldStart_skippingSpaces (hother : d.blankDelimited = true ∨ c ≠ 32)
    (s : Splitter) : s.readAtFieldStart (d.skippingSpaces skips) c = s.readAtFieldStart d c := by
  have hinitial : d.isInitialSpace c = false ∧
      (d.skippingSpaces skips).isInitialSpace c = false := by
    rcases hother with hb | hc <;> simp [Dialect.isInitialSpace, Dialect.skippingSpaces, *]
  rw [readAtFieldStart, readAtFieldStart, hinitial.1, hinitial.2]
  rfl

theorem readBetweenFields_skippingSpaces (s : Splitter) :
    s.readBetweenFields (d.skippingSpaces skips) c = s.readBetweenFields d c := by
  by_cases hblank : Dialect.isSpaceOrTab c = true
  · simp only [readBetweenFields, hblank, if_true]
    rfl
  · rw [readBetweenFields, readAtFieldStart_skippingSpaces skips (.inr (ne_space_of_not_blank hblank))]
    rfl

theorem readAtLineStart_skippingSpaces (hother : d.blankDelimited = true ∨ c ≠ 32)
    (s : Splitter) : s.readAtLineStart (d.skippingSpaces skips) c = s.readAtLineStart d c := by
  rw [readAtLineStart, readAtFieldStart_skippingSpaces skips hother]
  rfl

theorem readInBlanks_skippingSpaces (hblanks : d.blankDelimited = true) (s : Splitter) :
    s.readInBlanks (d.skippingSpaces skips) c = s.readInBlanks d c := by
  have hblanks' : (d.skippingSpaces skips).blankDelimited = true := hblanks
  simp only [readInBlanks, hblanks, hblanks', if_true,
    readAtFieldStart_skippingSpaces skips (.inl hblanks)]
  rfl

theorem accept_skippingSpaces
    (hother : d.blankDelimited = true ∨
      s.state ≠ .inBlanks ∧ (c = 32 → s.state ≠ .lineStart ∧ s.state ≠ .fieldStart)) :
    s.accept (d.skippingSpaces skips) c = s.accept d c := by
  have hfirst (hstart : s.state = .lineStart ∨ s.state = .fieldStart) :
      d.blankDelimited = true ∨ c ≠ 32 :=
    hother.imp_right fun h hspace => hstart.elim (h.2 hspace).1 (h.2 hspace).2
  unfold accept
  cases hs : s.state with
  | lineStart => exact readAtLineStart_skippingSpaces skips (hfirst (.inl hs)) s
  | fieldStart => exact readAtFieldStart_skippingSpaces skips (hfirst (.inr hs)) s
  | betweenFields => exact readBetweenFields_skippingSpaces skips s
  | inBlanks => exact readInBlanks_skippingSpaces skips (hother.resolve_right fun h => h.1 hs) s
  | _ => rfl

end Skips

section Spaces

variable (hd : d.KeepsSpaces) (hblanks : d.blankDelimited = false)

include hd hblanks

theorem space_not_delimiter : d.isDelimiter 32 = false := by
  rw [Dialect.isDelimiter, if_neg (by simp [hblanks])]
  exact beq_false_of_ne hd.delimiter.symm

theorem readAtFieldStart_space (hc : d.Unquoted 32) (s : Splitter) :
    s.readAtFieldStart d 32 =
      .ok (if d.skipInitialSpace then s else (s.push 32).enter .inField) := by
  simp only [readAtFieldStart, hd.terminator, hc.quote, hc.escape, hd.comment, hblanks,
    space_not_delimiter hd hblanks, Dialect.isReturn, Dialect.isInitialSpace]
  cases d.skipInitialSpace <;> simp

theorem readAtLineStart_space (s : Splitter) :
    s.readAtLineStart d 32 =
      if d.skipsLine s.fileLines then s.readAtSkippedLine d 32
      else if d.skipEmptyLines then .ok ({ s with heldBlanks := #[32] }.enter .inBlanks)
      else (s.enter .fieldStart).readAtFieldStart d 32 := by
  simp [readAtLineStart, hd.terminator, hd.comment, hblanks, Dialect.isReturn,
    Dialect.isSpaceOrTab, hd.delimiter.symm]

theorem readInField_space (hc : d.Unquoted 32) (s : Splitter) :
    s.readInField d 32 = .ok (s.push 32) := by
  simp [readInField, hd.terminator, hc.escape, hd.comment, space_not_delimiter hd hblanks,
    Dialect.isReturn]

theorem Trims.readSpace (hc : d.Unquoted 32) (h : Trims [] s t) (hs : s.state = .fieldStart) :
    Matched (Trimming d) (s.readAtFieldStart (d.skippingSpaces true) 32)
      (t.readAtFieldStart (d.skippingSpaces false) 32) := by
  rw [readAtFieldStart_space (hd.skippingSpaces true) hblanks (hc.skippingSpaces true),
    readAtFieldStart_space (hd.skippingSpaces false) hblanks (hc.skippingSpaces false)]
  exact .ok (.behind ((h.pushSpace rfl).enter s.state .inField) rfl hblanks hs rfl)

theorem Trims.readSpaceAtLineStart (hc : d.Unquoted 32) (h : Trims [] s t) :
    Matched (Trimming d) (s.readAtLineStart (d.skippingSpaces true) 32)
      (t.readAtLineStart (d.skippingSpaces false) 32) := by
  have hskips : (d.skippingSpaces true).skipsLine s.fileLines =
      (d.skippingSpaces false).skipsLine t.fileLines := by
    rw [h.fileLines]
    rfl
  rw [readAtLineStart_space (hd.skippingSpaces true) hblanks,
    readAtLineStart_space (hd.skippingSpaces false) hblanks, hskips,
    show (d.skippingSpaces true).skipEmptyLines = (d.skippingSpaces false).skipEmptyLines from rfl]
  split_ifs
  · exact h.readAtSkippedLine hc
  · exact (h.hold #[32]).enter_ok rfl
  · exact (h.enter .fieldStart .fieldStart).readSpace hd hblanks hc rfl

theorem Trims.readBehind (hc : d.Unquoted c) (h : Trims rest s t) (hrest : trimmed rest = [])
    (hs : s.state = .fieldStart) (ht : t.state = .inField) :
    Matched (Trimming d) (s.readAtFieldStart (d.skippingSpaces true) c) (t.readInField d c) := by
  by_cases hspace : c = 32
  · subst hspace
    rw [readAtFieldStart_space (hd.skippingSpaces true) hblanks (hc.skippingSpaces true),
      readInField_space hd hblanks hc]
    exact .ok (.behind (h.pushSpace hrest) (trimmed_space hrest) hblanks hs ht)
  · have hinitial : d.isInitialSpace c = false := by simp [Dialect.isInitialSpace, hspace]
    have hpushed := h.push (.inr hspace)
    have hskipping : s.closeField.state.isSkipping = t.closeField.state.isSkipping := by
      rw [show s.closeField.state = _ from hs, show t.closeField.state = _ from ht]
      rfl
    rw [readAtFieldStart_skippingSpaces true (.inr hspace), Splitter.readAtFieldStart,
      Splitter.readInField]
    simp only [hc.quote, hc.escape, hinitial, hblanks, afterDelimiter, Bool.false_eq_true, if_false]
    split_ifs
    · exact h.closeField.endLineTo hskipping rfl
    · exact h.closeField.enter_ok rfl
    · exact .ok (.bare (h.closeField.enter s.state .fieldStart) hs rfl)
    · exact h.closeField.enter_ok rfl
    · refine .ok (.inside (hpushed.enter .inField t.state) ?_ rfl ht)
      rw [trimmed_concat (.inr hspace)]
      simp

end Spaces

/-! ## All bytes -/

section Bytes

variable (hd : d.KeepsSpaces) (hc : d.Unquoted c)

include hd hc

theorem Trimming.accept_settled (h : Trimming d s t)
    (hheld : d.blankDelimited = true ∨ t.state ≠ .inBlanks) :
    Matched (Trimming d) (s.accept (d.skippingSpaces true) c)
      (t.accept (d.skippingSpaces false) c) := by
  cases h with
  | bare h hstate hbare =>
    by_cases hother : d.blankDelimited = true ∨
        t.state ≠ .inBlanks ∧ (c = 32 → t.state ≠ .lineStart ∧ t.state ≠ .fieldStart)
    · rw [accept_skippingSpaces true (hstate ▸ hother), accept_skippingSpaces false hother]
      exact h.accept hc hstate hbare hother
    rw [not_or] at hother
    have hblanks : d.blankDelimited = false := Bool.eq_false_iff.2 hother.1
    have hspace : ¬ (c = 32 → t.state ≠ .lineStart ∧ t.state ≠ .fieldStart) :=
      fun h => hother.2 ⟨hheld.resolve_left hother.1, h⟩
    rw [Classical.not_imp, not_and_or, not_ne_iff, not_ne_iff] at hspace
    obtain ⟨rfl, ht | ht⟩ := hspace
    · rw [Splitter.accept, Splitter.accept, hstate, ht]
      exact h.readSpaceAtLineStart hd hblanks hc
    · rw [Splitter.accept, Splitter.accept, hstate, ht]
      exact h.readSpace hd hblanks hc (hstate.trans ht)
  | inside h hrest hs ht =>
    rw [Splitter.accept, Splitter.accept, hs, ht]
    exact h.readInField hc hrest hs ht
  | behind h hrest hblanks hs ht =>
    rw [Splitter.accept, Splitter.accept, hs, ht]
    exact h.readBehind hd hblanks hc hrest hs ht

omit hd hc in
theorem readInBlanks_content (hblanks : d.blankDelimited = false) (s : Splitter) :
    s.readInBlanks d c =
      if d.isTerminator c then .ok ({ s.countLine with heldBlanks := #[] }.enter .lineStart)
      else if d.isReturn c then
        .ok ({ s.countLine with heldBlanks := #[] }.enter .afterIgnoredReturn)
      else if Dialect.isSpaceOrTab c ∧ c ≠ d.delimiter then
        .ok { s with heldBlanks := s.heldBlanks.push c }
      else (s.releaseBlanks d).accept d c := by
  have haccept : (if (s.releaseBlanks d).state = .inField then (s.releaseBlanks d).readInField d c
      else (s.releaseBlanks d).readAtFieldStart d c) = (s.releaseBlanks d).accept d c := by
    have hstate : (s.releaseBlanks d).state = .fieldStart ∨
        (s.releaseBlanks d).state = .inField := by
      rw [releaseBlanks_eq, enter]
      split_ifs
      · exact .inl rfl
      · exact .inr rfl
    rw [Splitter.accept]
    rcases hstate with hstate | hstate <;> simp [hstate]
  simp only [readInBlanks, hblanks, Bool.false_eq_true, if_false, haccept]

omit hd hc in
theorem Trims.releaseBlanks (hblanks : d.blankDelimited = false) (h : Trims [] s t) :
    Trimming d (s.releaseBlanks (d.skippingSpaces true))
      (t.releaseBlanks (d.skippingSpaces false)) ∧
      (t.releaseBlanks (d.skippingSpaces false)).state ≠ .inBlanks := by
  have hpushed := (h.hold #[]).pushes t.heldBlanks.toList
  have hkept : keptBlanks (d.skippingSpaces true) t.heldBlanks.toList =
      trimmed t.heldBlanks.toList := if_pos rfl
  have hkept' : keptBlanks (d.skippingSpaces false) t.heldBlanks.toList =
      t.heldBlanks.toList := if_neg (by simp [Dialect.skippingSpaces])
  rw [releaseBlanks_eq, releaseBlanks_eq, h.heldBlanks, hkept, hkept']
  generalize t.heldBlanks.toList = held at hpushed
  refine ⟨?_, by rw [Splitter.enter]; split_ifs <;> simp⟩
  by_cases hnone : trimmed held = []
  · cases held with
    | nil => exact .bare (hpushed.enter _ _) rfl rfl
    | cons byte rest =>
      rw [hnone] at hpushed ⊢
      exact .behind (hpushed.enter _ _) hnone hblanks rfl rfl
  · have hkeeps : held ≠ [] := by
      rintro rfl
      exact hnone rfl
    refine .inside (hpushed.enter _ _) hnone ?_ ?_
    · exact if_neg (by simpa [List.isEmpty_iff] using hnone)
    · exact if_neg (by simpa [List.isEmpty_iff] using hkeeps)

theorem Trims.readInBlanks_content (hblanks : d.blankDelimited = false) (h : Trims [] s t)
    (hs : s.state = .inBlanks) (ht : t.state = .inBlanks) :
    Matched (Trimming d) (s.readInBlanks (d.skippingSpaces true) c)
      (t.readInBlanks (d.skippingSpaces false) c) := by
  have hblanks' (skips : Bool) : (d.skippingSpaces skips).blankDelimited = false := hblanks
  rw [Splitter.readInBlanks_content (hblanks' true), Splitter.readInBlanks_content (hblanks' false)]
  show Matched (Trimming d) (if d.isTerminator c then _ else if d.isReturn c then _ else
    if Dialect.isSpaceOrTab c ∧ c ≠ d.delimiter then _ else _) (if d.isTerminator c then _ else
    if d.isReturn c then _ else if Dialect.isSpaceOrTab c ∧ c ≠ d.delimiter then _ else _)
  split_ifs
  · exact (h.countLine.hold #[]).enter_ok rfl
  · exact (h.countLine.hold #[]).enter_ok rfl
  · rw [h.heldBlanks]
    exact .ok (.bare (h.hold _) (hs.trans ht.symm) (congrArg SplitState.isBare ht))
  · obtain ⟨hreleased, hstate⟩ := h.releaseBlanks hblanks
    exact hreleased.accept_settled hd hc (.inr hstate)

theorem Trimming.accept (h : Trimming d s t) :
    Matched (Trimming d) (s.accept (d.skippingSpaces true) c)
      (t.accept (d.skippingSpaces false) c) := by
  by_cases hheld : d.blankDelimited = true ∨ t.state ≠ .inBlanks
  · exact h.accept_settled hd hc hheld
  obtain ⟨hblanks, ht⟩ := not_or.1 hheld
  have ht := not_ne_iff.1 ht
  cases h with
  | bare h hstate hbare =>
    rw [Splitter.accept, Splitter.accept, hstate, ht]
    exact h.readInBlanks_content hd hc (Bool.eq_false_iff.2 hblanks) (hstate.trans ht) ht
  | inside _ _ _ hin | behind _ _ _ _ hin => simp [hin] at ht

/-- The byte after a carriage return that ends a line. -/
theorem Trims.readByte_afterReturn (h : Trims [] s t) (hs : s.state = .afterReturn)
    (ht : t.state = .afterReturn) :
    Matched (Trimming d) (s.readByte (d.skippingSpaces true) c)
      (t.readByte (d.skippingSpaces false) c) := by
  have hskipping : s.state.isSkipping = t.state.isSkipping := by rw [hs, ht]
  have hends (state : SplitState) := h.endLineTo_entered (d := d) hskipping state
  have hnext : ∃ state : SplitState, (if d.isDelimiter c then .betweenFields else .lineStart) =
      state ∧ state.isBare = true ∧ state ≠ .inBlanks := by
    split_ifs <;> exact ⟨_, rfl, rfl, by simp⟩
  obtain ⟨state, hnext, hbare, hheld⟩ := hnext
  rw [Splitter.readByte_afterReturn _ c s hs, Splitter.readByte_afterReturn _ c t ht]
  show Matched (Trimming d) (if c = 10 then s.endLineTo d .lineStart
      else if d.isDelimiter c ∧ !d.blankDelimited then s.endLineTo d .fieldStart >>= _
      else s.endLineTo d (if d.isDelimiter c then .betweenFields else .lineStart) >>= _)
    (if c = 10 then t.endLineTo d .lineStart
      else if d.isDelimiter c ∧ !d.blankDelimited then t.endLineTo d .fieldStart >>= _
      else t.endLineTo d (if d.isDelimiter c then .betweenFields else .lineStart) >>= _)
  rw [hnext]
  split_ifs
  · exact h.endLineTo hskipping rfl
  · exact (hends .fieldStart).bind fun u v ⟨h, hu, hv⟩ =>
      .ok (.bare h.closeField (hu.trans hv.symm) (congrArg SplitState.isBare hv))
  · exact (hends state).bind fun u v ⟨h, hu, hv⟩ =>
      (Trimming.bare h (hu.trans hv.symm) (hv ▸ hbare)).accept_settled hd hc (.inr (hv ▸ hheld))

theorem Trimming.readByte (h : Trimming d s t) :
    Matched (Trimming d) (s.readByte (d.skippingSpaces true) c)
      (t.readByte (d.skippingSpaces false) c) := by
  have hplain (hs : s.state ≠ .afterReturn) (hi : s.state ≠ .afterIgnoredReturn)
      (ht : t.state ≠ .afterReturn) (hj : t.state ≠ .afterIgnoredReturn) :
      Matched (Trimming d) (s.readByte (d.skippingSpaces true) c)
        (t.readByte (d.skippingSpaces false) c) := by
    rw [readByte_of_not_return _ c s hs hi, readByte_of_not_return _ c t ht hj]
    exact h.accept hd hc
  cases h with
  | bare h hstate hbare =>
    by_cases hreturn : t.state = .afterReturn
    · exact h.readByte_afterReturn hd hc (hstate.trans hreturn) hreturn
    by_cases hignored : t.state = .afterIgnoredReturn
    · have hline : Trims [] (s.enter .lineStart) (t.enter .lineStart) := h.enter _ _
      rw [readByte_afterIgnoredReturn _ c s (hstate.trans hignored),
        readByte_afterIgnoredReturn _ c t hignored]
      show Matched (Trimming d) (if c = 10 ∨ d.isDelimiter c then _ else _)
        (if c = 10 ∨ d.isDelimiter c then _ else _)
      split_ifs
      · exact h.enter_ok rfl
      · exact (Trimming.bare hline rfl rfl).accept_settled hd hc (.inr (by simp [enter]))
    · exact hplain (hstate ▸ hreturn) (hstate ▸ hignored) hreturn hignored
  | inside h hrest hs ht | behind h hrest hblanks hs ht =>
    exact hplain (by simp [hs]) (by simp [hs]) (by simp [ht]) (by simp [ht])

omit hc in
theorem Trimming.readAll {bytes : List UInt8} (hbytes : ∀ c ∈ bytes, d.Unquoted c)
    (h : Trimming d s t) :
    Matched (Trimming d) (s.readAll (d.skippingSpaces true) bytes)
      (t.readAll (d.skippingSpaces false) bytes) := by
  induction bytes generalizing s t with
  | nil => exact .ok h
  | cons c rest ih =>
    rw [readAll_cons, readAll_cons]
    exact (h.readByte hd (hbytes c (by simp))).bind fun _ _ h =>
      ih (fun c hc => hbytes c (by simp [hc])) h

end Bytes

theorem Trimming.endLastLine (h : Trimming d s t) :
    Matched (Trims []) (s.endLastLine d) (t.endLastLine d) := by
  have hclosed {rest : List UInt8} (h : Trims rest s t)
      (hs : s.state.isSkipping = t.state.isSkipping) :
      Matched (Trims []) (s.closeField.endLine d) (t.closeField.endLine d) :=
    h.closeField.endLine hs
  unfold Splitter.endLastLine
  cases h with
  | bare h hstate hbare =>
    rw [hstate]
    cases ht : t.state with
    | lineStart | inBlanks | afterIgnoredReturn | inCommentLine | finished => exact .ok h
    | fieldStart => exact hclosed h (congrArg _ hstate)
    | afterReturn | betweenFields | inTrailingComment | skippedFieldStart | inSkippedField =>
      exact h.endLine (congrArg _ hstate)
    | _ => simp [ht, SplitState.isBare] at hbare
  | inside h hrest hs ht | behind h hrest hblanks hs ht =>
    have hskipping : s.state.isSkipping = t.state.isSkipping := by simp [hs, ht, SplitState.isSkipping]
    rw [hs, ht]
    exact hclosed h hskipping

theorem Trimming.finish (h : Trimming d s t) :
    Matched (Trims []) (s.finish (d.skippingSpaces true)) (t.finish (d.skippingSpaces false)) :=
  h.endLastLine.bind fun _ _ h => .ok (h.enter .finished .finished)

theorem trimming_start (d : Dialect) (headerLines : Nat) (anyWidth : Bool) :
    Trimming d { headerLines := headerLines, anyWidth := anyWidth }
      { headerLines := headerLines, anyWidth := anyWidth } :=
  have hkeeps := (drafts_start headerLines anyWidth).keeps
  .bare ⟨rfl, rfl, rfl, rfl, rfl, rfl, [], [], hkeeps, hkeeps⟩ rfl rfl

theorem Matched.outcome {x y : Except (Halted Splitter) Splitter} (h : Matched (Trims []) x y) :
    (outcomeOf x).1 = (outcomeOf y).1 ∧
      ∃ rest, Trims rest (outcomeOf x).2 (outcomeOf y).2 := by
  cases h with
  | ok h => exact ⟨rfl, [], h⟩
  | error hfault h => exact ⟨congrArg some hfault, h⟩
  | excused h => exact h.elim

end Splitter

namespace Session

/-- To pass over spaces at the beginning of fields is to take them off the fields: the lines, their
numbers and warnings are the same, or the failure is. -/
theorem tokenizeAll_skippingSpaces (d : Dialect) (hdelimiter : d.delimiter ≠ 32)
    (hterminator : d.isTerminator 32 = false) (hcomment : d.isComment 32 = false)
    (headerLines : Nat) (anyWidth : Bool) (chunkSize otherSize : Nat) (feed : Feed)
    (hfailures : feed.failures = 0)
    (hplain : ∀ c ∈ feed.content, d.isQuote c = false ∧ d.isEscape c = false) :
    let p := (Session.start headerLines anyWidth chunkSize).tokenizeAll
      { d with skipInitialSpace := true } feed
    let q := (Session.start headerLines anyWidth otherSize).tokenizeAll
      { d with skipInitialSpace := false } feed
    p.fault = q.fault ∧
      p.session.splitter.records =
        q.session.splitter.records.map (fun (number, fields) =>
          (number, fields.map (·.dropWhile (· == 32)))) ∧
      p.session.splitter.fileLines = q.session.splitter.fileLines ∧
      p.session.splitter.warnings = q.session.splitter.warnings := by
  intro p q
  have hp : p.outcome = _ := tokenizeAll_start _ headerLines anyWidth chunkSize hfailures
  have hq : q.outcome = _ := tokenizeAll_start _ headerLines anyWidth otherSize hfailures
  have hbytes : ∀ c ∈ withoutMark feed.content, d.Unquoted c := fun c hc =>
    have hplain := hplain c ((withoutMark_suffix feed.content).mem hc)
    ⟨hplain.1, hplain.2⟩
  have hmatched := ((Splitter.trimming_start d headerLines anyWidth).readAll
    ⟨hdelimiter, hterminator, hcomment⟩ hbytes).bind fun _ _ h => h.finish
  obtain ⟨hfault, rest, htrims⟩ := Splitter.Matched.outcome hmatched
  obtain ⟨hpf, hps⟩ := Prod.mk.inj hp
  obtain ⟨hqf, hqs⟩ := Prod.mk.inj hq
  rw [hpf, hps, hqf, hqs]
  obtain ⟨records, fields, hs, ht⟩ := htrims.contents
  refine ⟨hfault, ?_, htrims.fileLines, htrims.warnings⟩
  exact hs.records_eq.trans (congrArg _ ht.records_eq.symm)

/-- Spaces before a delimiter, a comment and a tab, a line of blanks that is skipped, a line with too
many fields and one with too few. -/
theorem tokenizeAll_skippingSpaces_indented :
    let d : Dialect := { skipEmptyLines := true, expectedFields := some 2, onBadLines := .warn }
    let content : List UInt8 := [32, 97, 44, 32, 32, 98, 32, 10, 32, 9, 10, 32, 44, 32, 35, 120, 10,
      32, 120, 44, 121, 44, 122, 10, 32, 9, 99]
    let p := (Session.start 0 false 4).tokenizeAll { d with skipInitialSpace := true }
      (.memory content)
    let q := (Session.start 0 false 7).tokenizeAll { d with skipInitialSpace := false }
      (.memory content)
    p.session.splitter.records = [(1, [[97], [98, 32]]), (3, [[], []]), (5, [[9, 99], []])] ∧
      q.session.splitter.records =
        [(1, [[32, 97], [32, 32, 98, 32]]), (3, [[32], [32]]), (5, [[32, 9, 99], []])] ∧
      q.session.splitter.warnings = #[⟨4, 2, 3⟩] ∧
      p.fault = q.fault ∧
      p.session.splitter.records =
        q.session.splitter.records.map (fun (number, fields) =>
          (number, fields.map (·.dropWhile (· == 32)))) ∧
      p.session.splitter.fileLines = q.session.splitter.fileLines ∧
      p.session.splitter.warnings = q.session.splitter.warnings := by
  intro d content p q
  refine ⟨by decide +kernel, by decide +kernel, by decide +kernel, ?_⟩
  exact tokenizeAll_skippingSpaces d (by decide) rfl rfl 0 false 4 7 (.memory content) rfl
    (by decide +kernel)

end Session

end TypedTable.Csv
