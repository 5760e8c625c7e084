import Mathlib.Tactic.SplitIfs
import TypedTable.Proofs.Csv.Contents
import TypedTable.Proofs.Csv.Pieces
import TypedTable.Proofs.Csv.Writing

/-!
# Written rows are read back

Splitting the text of some rows gives the rows again, whatever bytes their fields have. A row that
ends in a carriage return stays open until the next byte, so between two rows the last one may still
be under construction.
-/

set_option autoImplicit false

namespace TypedTable.Csv

namespace Splitter

variable {d : Dialect} {s : Splitter}

def pushAll (s : Splitter) (bytes : List UInt8) : Splitter := bytes.foldl push s

theorem pushAll_enter (s : Splitter) (bytes : List UInt8) (state : SplitState) :
    (s.enter state).pushAll bytes = (s.pushAll bytes).enter state := by
  induction bytes generalizing s with
  | nil => rfl
  | cons byte rest ih => exact ih (s.push byte)

theorem enter_state_eq (s : Splitter) (state : SplitState) : (s.enter state).state = state := rfl

theorem readByte_eq_accept {state : SplitState} (c : UInt8) (hs : s.state = state)
    (h : state ≠ .afterReturn) (hi : state ≠ .afterIgnoredReturn) :
    s.readByte d c = s.accept d c :=
  readByte_of_not_return d c s (hs ▸ h) (hs ▸ hi)

theorem readAll_inField (hd : d.Writable) {bytes : List UInt8}
    (hb : ∀ byte ∈ bytes, byte ∉ d.specialBytes) (hs : s.state = .inField) :
    s.readAll d bytes = .ok (s.pushAll bytes) := by
  induction bytes generalizing s with
  | nil => rfl
  | cons byte rest ih =>
    obtain ⟨hterminator, hreturn, -, hescape, hdelimiter, hcomment⟩ := hd.plain (hb byte (by simp))
    have hread : s.readByte d byte = .ok (s.push byte) := by
      rw [readByte_eq_accept byte hs (by simp) (by simp)]
      simp [accept, hs, readInField, hterminator, hreturn, hescape, hdelimiter, hcomment]
    rw [readAll_cons, hread, ok_bind]
    exact ih (s := s.push byte) (fun b h => hb b (by simp [h])) hs

theorem readAll_writeByte (hd : d.Writable) (byte : UInt8) (hs : s.state = .inQuotes) :
    s.readAll d (d.writeByte byte) = .ok (s.push byte) := by
  obtain ⟨-, -, hquote, hnoescape, -, -⟩ := hd.quote_roles
  have hpush : (s.push byte).enter .inQuotes = s.push byte := by
    rw [← hs]
    rfl
  rw [Dialect.writeByte]
  split_ifs with hdoubled
  · rw [readAll_cons, readByte_eq_accept byte hs (by simp) (by simp), accept, hs]
    by_cases hq : byte = d.quoteChar
    · subst hq
      simp only [readInQuotes, hnoescape, hquote, hd.doubles, if_true, Bool.false_eq_true,
        if_false, ok_bind]
      rw [readAll_cons, readByte_eq_accept _ (enter_state_eq s .afterQuote) (by simp) (by simp)]
      simp only [accept, enter_state_eq, readAfterQuote, hquote, if_true, ok_bind, readAll_nil]
      exact congrArg Except.ok hpush
    · have hescape : d.isEscape byte = true := by
        simpa [Dialect.isEscape, hq] using hdoubled
      simp only [readInQuotes, hescape, if_true, ok_bind]
      rw [readAll_cons, readByte_eq_accept _ (enter_state_eq s .escapedInQuotes) (by simp) (by simp)]
      simp only [accept, enter_state_eq, ok_bind, readAll_nil]
      exact congrArg Except.ok hpush
  · have hplain : d.isQuote byte = false ∧ d.isEscape byte = false := by
      simpa [hd.isQuote_eq, Dialect.isEscape] using hdoubled
    rw [readAll_cons, readByte_eq_accept byte hs (by simp) (by simp), accept, hs]
    simp [readInQuotes, hplain]

theorem readAll_inQuotes (hd : d.Writable) (bytes : List UInt8) (hs : s.state = .inQuotes) :
    s.readAll d (bytes.flatMap d.writeByte) = .ok (s.pushAll bytes) := by
  induction bytes generalizing s with
  | nil => rfl
  | cons byte rest ih =>
    rw [List.flatMap_cons, readAll_append, readAll_writeByte hd byte hs, ok_bind]
    exact ih (s := s.push byte) hs

inductive FieldRead : SplitState → Prop
  | empty : FieldRead .fieldStart
  | raw : FieldRead .inField
  | quoted : FieldRead .afterQuote

theorem readAll_rawField (hd : d.Writable) {bytes : List UInt8}
    (hb : ∀ byte ∈ bytes, byte ∉ d.specialBytes) (hs : s.state = .fieldStart) :
    ∃ state, FieldRead state ∧ s.readAll d bytes = .ok ((s.pushAll bytes).enter state) := by
  cases bytes with
  | nil =>
    refine ⟨.fieldStart, .empty, ?_⟩
    rw [← hs]
    rfl
  | cons byte rest =>
    obtain ⟨hterminator, hreturn, hquote, hescape, hdelimiter, hcomment⟩ :=
      hd.plain (hb byte (by simp))
    refine ⟨.inField, .raw, ?_⟩
    rw [readAll_cons, readByte_eq_accept byte hs (by simp) (by simp)]
    simp only [accept, hs, readAtFieldStart, hterminator, hreturn, hquote, hescape, hdelimiter,
      hcomment, hd.isInitialSpace_eq, Bool.false_eq_true, if_false, ok_bind]
    rw [readAll_inField hd (fun b h => hb b (by simp [h])) rfl, pushAll_enter]
    rfl

theorem readAll_quotedField (hd : d.Writable) (bytes : List UInt8) (hs : s.state = .fieldStart) :
    s.readAll d (d.quoteChar :: (bytes.flatMap d.writeByte ++ [d.quoteChar])) =
      .ok ((s.pushAll bytes).enter .afterQuote) := by
  obtain ⟨hterminator, hreturn, hquote, hescape, -, -⟩ := hd.quote_roles
  have hopen : s.readByte d d.quoteChar = .ok (s.enter .inQuotes) := by
    rw [readByte_eq_accept _ hs (by simp) (by simp)]
    simp [accept, hs, readAtFieldStart, hterminator, hreturn, hquote]
  have hclose : ((s.pushAll bytes).enter .inQuotes).readByte d d.quoteChar =
      .ok ((s.pushAll bytes).enter .afterQuote) := by
    rw [readByte_eq_accept _ (enter_state_eq _ .inQuotes) (by simp) (by simp)]
    simp only [accept, enter_state_eq, readInQuotes, hescape, hquote, hd.doubles, if_true,
      Bool.false_eq_true, if_false]
    rfl
  rw [readAll_cons, hopen, ok_bind, readAll_append, readAll_inQuotes hd bytes (enter_state_eq s _),
    ok_bind, pushAll_enter, readAll_cons, hclose]
  rfl

theorem readAll_writeField (hd : d.Writable) {field : WrittenField} (ha : field.Allowed d)
    (hs : s.state = .fieldStart) :
    ∃ state, FieldRead state ∧
      s.readAll d (d.writeField field) = .ok ((s.pushAll field.bytes).enter state) := by
  rw [Dialect.writeField]
  split_ifs with hq
  · exact ⟨.afterQuote, .quoted, readAll_quotedField hd field.bytes hs⟩
  · exact readAll_rawField hd (ha (Bool.eq_false_iff.2 hq)) hs

theorem readByte_delimiter (hd : d.Writable) (hs : FieldRead s.state) :
    s.readByte d d.delimiter = .ok (s.closeField.enter .fieldStart) := by
  obtain ⟨hterminator, hreturn, hquote, hescape, hdelimiter, -⟩ := hd.delimiter_roles
  generalize hstate : s.state = state at hs
  cases hs with
  | empty =>
    rw [readByte_eq_accept _ hstate (by simp) (by simp)]
    simp [accept, hstate, readAtFieldStart, hterminator, hreturn, hquote, hescape, hdelimiter,
      hd.isInitialSpace_eq, hd.delimited]
    rw [← hstate]
    rfl
  | raw =>
    rw [readByte_eq_accept _ hstate (by simp) (by simp)]
    simp [accept, hstate, readInField, hterminator, hreturn, hescape, hdelimiter, afterDelimiter,
      hd.delimited]
  | quoted =>
    rw [readByte_eq_accept _ hstate (by simp) (by simp)]
    simp [accept, hstate, readAfterQuote, hquote, hdelimiter, afterDelimiter, hd.delimited]

theorem readByte_terminator (hd : d.Writable) {c : UInt8} (hc : d.isTerminator c = true)
    (hs : FieldRead s.state) : s.readByte d c = s.closeField.endLineTo d .lineStart := by
  obtain ⟨hquote, hdelimiter⟩ := hd.ending_roles (Dialect.Writable.endsLine_iff.1 (.inl hc))
  generalize hstate : s.state = state at hs
  cases hs with
  | empty =>
    rw [readByte_eq_accept _ hstate (by simp) (by simp)]
    simp [accept, hstate, readAtFieldStart, hc]
  | raw =>
    rw [readByte_eq_accept _ hstate (by simp) (by simp)]
    simp [accept, hstate, readInField, hc]
  | quoted =>
    rw [readByte_eq_accept _ hstate (by simp) (by simp)]
    simp [accept, hstate, readAfterQuote, hquote, hdelimiter, hc]

theorem readByte_return (hd : d.Writable) {c : UInt8} (hc : d.isReturn c = true)
    (ht : d.isTerminator c = false) (hs : FieldRead s.state) :
    s.readByte d c = .ok (s.closeField.enter .afterReturn) := by
  obtain ⟨hquote, hdelimiter⟩ := hd.ending_roles (Dialect.Writable.endsLine_iff.1 (.inr hc))
  generalize hstate : s.state = state at hs
  cases hs with
  | empty =>
    rw [readByte_eq_accept _ hstate (by simp) (by simp)]
    simp [accept, hstate, readAtFieldStart, hc, ht]
  | raw =>
    rw [readByte_eq_accept _ hstate (by simp) (by simp)]
    simp [accept, hstate, readInField, hc, ht]
  | quoted =>
    rw [readByte_eq_accept _ hstate (by simp) (by simp)]
    simp [accept, hstate, readAfterQuote, hquote, hdelimiter, hc, ht]

structure Clean (s : Splitter) (rows : List (List (List UInt8))) (fields : List (List UInt8))
    (rest : List UInt8) : Prop extends s.Holds rows fields rest where
  counted : s.fileLines = rows.length
  quiet : s.warnings = #[]

variable {rows : List (List (List UInt8))} {fields : List (List UInt8)} {rest : List UInt8}
  {width : Nat}

namespace Clean

theorem enter (h : s.Clean rows fields rest) (state : SplitState) :
    (s.enter state).Clean rows fields rest :=
  ⟨h.toHolds.enter state, h.counted, h.quiet⟩

theorem push (h : s.Clean rows fields rest) (byte : UInt8) :
    (s.push byte).Clean rows fields (rest ++ [byte]) :=
  ⟨h.toHolds.push byte, h.counted, h.quiet⟩

theorem pushAll (h : s.Clean rows fields rest) (bytes : List UInt8) :
    (s.pushAll bytes).Clean rows fields (rest ++ bytes) := by
  induction bytes generalizing s rest with
  | nil => simpa [Splitter.pushAll] using h
  | cons byte later ih => simpa [Splitter.pushAll] using ih (h.push byte)

theorem closeField (h : s.Clean rows fields rest) :
    s.closeField.Clean rows (fields ++ [rest]) [] :=
  ⟨h.toHolds.closeField, h.counted, h.quiet⟩

theorem commitLine (h : s.Clean rows fields []) : s.commitLine.Clean (rows ++ [fields]) [] [] where
  toHolds := h.toHolds.commitLine
  counted := by simp [Splitter.commitLine, h.counted]
  quiet := h.quiet

end Clean

theorem requiredFields_of_holds (h : s.Holds rows fields rest)
    (hw : ∀ row ∈ rows, row.length = width)
    (he : d.expectedFields = none ∨ d.expectedFields = some width) :
    s.requiredFields d = none ∨ s.requiredFields d = some width := by
  rw [requiredFields]
  split_ifs
  · rcases he with he | he
    · rw [he]
      cases hlast : s.lines.back? with
      | none => exact .inl rfl
      | some line =>
        right
        rw [Array.back?_eq_getElem?] at hlast
        obtain ⟨hi, rfl⟩ := Array.getElem?_eq_some_iff.1 hlast
        have hr : s.lines.size - 1 < rows.length := h.count ▸ hi
        have hfields := (h.line _ hi hr).2
        rw [hw _ (List.getElem_mem hr)] at hfields
        simp [hfields]
    · exact .inr (by rw [he]; rfl)
  · exact .inl rfl

theorem endLine_of_holds (h : s.Holds rows fields rest) (hs : s.state.isSkipping = false)
    (hw : ∀ row ∈ rows, row.length = width) (hf : fields.length = width)
    (he : d.expectedFields = none ∨ d.expectedFields = some width) :
    s.endLine d = .ok s.commitLine := by
  rw [endLine, if_neg (by simp [hs])]
  rcases requiredFields_of_holds h hw he with hr | hr
  · rw [hr]
  · have hopen : s.openFields = width := h.openFields.trans hf
    simp [hr, hopen, padLine]

/-- All of `rows` was read; the last one may be open until the byte after its carriage return. -/
inductive Between (d : Dialect) (rows : List (List (List UInt8))) (s : Splitter) : Prop
  | settled (hs : s.state = .lineStart) (hc : s.Clean rows [] [])
  | pending (hs : s.state = .afterReturn) (hr : d.lineTerminator = none)
      (hc : ∃ t, s.endLine d = .ok t ∧ t.Clean rows [] [])

theorem accept_lineStart (hd : d.Writable) {c : UInt8} (hending : c ∉ d.endingBytes)
    (hcomment : c ∉ d.commentChar.toList) (hs : s.state = .lineStart) :
    s.accept d c = (s.enter .fieldStart).accept d c := by
  simp [accept, hs, enter_state_eq, readAtLineStart, hd.skipsLine_eq, hd.delimited, hd.emptyLines,
    Dialect.Writable.not_terminator_of_not_ending hending,
    Dialect.Writable.not_return_of_not_ending hending, Dialect.Writable.not_comment hcomment]

theorem readByte_between (hd : d.Writable) {c : UInt8} (hending : c ∉ d.endingBytes)
    (hcomment : c ∉ d.commentChar.toList) (h : Between d rows s) :
    ∃ t : Splitter, t.state = .fieldStart ∧ t.Clean rows [] [] ∧
      s.readByte d c = t.readByte d c := by
  cases h with
  | settled hs hc =>
    refine ⟨s.enter .fieldStart, rfl, hc.enter _, ?_⟩
    rw [readByte_eq_accept c hs (by simp) (by simp),
      readByte_eq_accept c (enter_state_eq s _) (by simp) (by simp)]
    exact accept_lineStart hd hending hcomment hs
  | pending hs hr hc =>
    obtain ⟨t, ht, hc⟩ := hc
    refine ⟨t.enter .fieldStart, rfl, hc.enter _, ?_⟩
    have hfeed : c ≠ 10 := by
      rintro rfl
      exact hending (by simp [Dialect.endingBytes, hr])
    rw [readByte_afterReturn d c s hs, if_neg hfeed,
      readByte_eq_accept c (enter_state_eq t _) (by simp) (by simp)]
    simp only [endLineTo, ht, ok_bind, pure_eq_ok, hd.delimited, Bool.not_false, and_true]
    split_ifs with hdelimiter
    · have hc : c = d.delimiter := by simpa [hd.isDelimiter_eq] using hdelimiter
      obtain ⟨hterminator, hreturn, hquote, hescape, -, -⟩ := hd.delimiter_roles
      subst hc
      simp [accept, enter_state_eq, readAtFieldStart, hterminator, hreturn, hquote, hescape,
        hdelimiter, hd.isInitialSpace_eq, hd.delimited]
    · exact accept_lineStart hd hending hcomment (enter_state_eq t _)

theorem readAll_writeFields (hd : d.Writable) {written : List WrittenField}
    (hn : written ≠ []) (ha : ∀ field ∈ written, field.Allowed d) (hs : s.state = .fieldStart)
    (hc : s.Clean rows fields []) :
    ∃ t, s.readAll d (d.writeFields written) = .ok t ∧ FieldRead t.state ∧
      t.closeField.Clean rows (fields ++ written.map (·.bytes)) [] := by
  induction written generalizing s fields with
  | nil => exact absurd rfl hn
  | cons field later ih =>
    obtain ⟨state, hstate, hread⟩ := readAll_writeField hd (ha field (by simp)) hs
    have hfield : ((s.pushAll field.bytes).enter state).Clean rows fields field.bytes :=
      (hc.pushAll field.bytes).enter state
    cases later with
    | nil => exact ⟨_, hread, hstate, hfield.closeField⟩
    | cons next later =>
      have hdelimiter := readByte_delimiter (s := (s.pushAll field.bytes).enter state) hd hstate
      obtain ⟨t, ht, hfieldRead, hclean⟩ := ih (by simp) (fun f hf => ha f (by simp [hf])) rfl
        (hfield.closeField.enter .fieldStart)
      refine ⟨t, ?_, hfieldRead, ?_⟩
      · rw [Dialect.writeFields, readAll_append, hread, ok_bind, readAll_cons, hdelimiter, ok_bind, ht]
      · simpa using hclean

theorem FieldRead.not_skipping {state : SplitState} (h : FieldRead state) :
    state.isSkipping = false := by
  cases h <;> rfl

/-- The line ending commits the row, or leaves it open behind a carriage return. -/
theorem readAll_writeEnding (hd : d.Writable) (ending : LineEnding) (hs : FieldRead s.state)
    (hc : s.closeField.Clean rows fields []) (hw : ∀ row ∈ rows, row.length = width)
    (hf : fields.length = width)
    (he : d.expectedFields = none ∨ d.expectedFields = some width) :
    ∃ t, s.readAll d (d.writeEnding ending) = .ok t ∧ Between d (rows ++ [fields]) t := by
  have hline : s.closeField.endLine d = .ok s.closeField.commitLine :=
    endLine_of_holds hc.toHolds hs.not_skipping hw hf he
  have hcommitted := hc.commitLine
  have hterminated {c : UInt8} (h : d.isTerminator c = true) :
      s.readAll d [c] = .ok (s.closeField.commitLine.enter .lineStart) := by
    rw [readAll_cons, readByte_terminator hd h hs, endLineTo, hline]
    rfl
  cases ht : d.lineTerminator with
  | some terminator =>
    rw [Dialect.writeEnding, ht]
    exact ⟨_, hterminated (by simp [Dialect.isTerminator, ht]), .settled rfl (hcommitted.enter _)⟩
  | none =>
    have hreturn : s.readByte d 13 = .ok (s.closeField.enter .afterReturn) :=
      readByte_return hd (by simp [Dialect.isReturn, ht]) (by simp [Dialect.isTerminator, ht]) hs
    have hopen : (s.closeField.enter .afterReturn).endLine d =
        .ok (s.closeField.enter .afterReturn).commitLine :=
      endLine_of_holds (hc.enter _).toHolds rfl hw hf he
    rw [Dialect.writeEnding, ht]
    cases ending with
    | feed =>
      exact ⟨_, hterminated (by simp [Dialect.isTerminator, ht]), .settled rfl (hcommitted.enter _)⟩
    | returnAndFeed =>
      refine ⟨_, ?_, .settled rfl ((hc.enter .afterReturn).commitLine.enter .lineStart)⟩
      rw [LineEnding.bytes, readAll_cons, hreturn, ok_bind, readAll_cons,
        readByte_afterReturn _ _ _ (enter_state_eq _ _), if_pos rfl, endLineTo, hopen]
      rfl
    | loneReturn =>
      refine ⟨_, ?_, .pending rfl ht ⟨_, hopen, (hc.enter .afterReturn).commitLine⟩⟩
      rw [LineEnding.bytes, readAll_cons, hreturn]
      rfl

/-- A row that is no empty line begins with a byte that neither ends a line nor opens a comment. -/
theorem writeFields_eq_cons (hd : d.Writable) {written : List WrittenField} (hn : written ≠ [])
    (hfilled : written ≠ [⟨[], false⟩]) (ha : ∀ field ∈ written, field.Allowed d) :
    ∃ c rest, d.writeFields written = c :: rest ∧ c ∉ d.endingBytes ∧
      c ∉ d.commentChar.toList := by
  obtain ⟨-, ⟨-, hdelimiter⟩, ⟨-, hquote⟩, -⟩ := hd.distinct_roles
  cases written with
  | nil => exact absurd rfl hn
  | cons field later =>
    obtain ⟨bytes, quoted⟩ := field
    cases quoted with
    | true =>
      cases later <;>
        exact ⟨d.quoteChar, _, rfl, hquote.2, hquote.1⟩
    | false =>
      cases bytes with
      | nil =>
        cases later with
        | nil => exact absurd rfl hfilled
        | cons next later =>
          exact ⟨d.delimiter, _, rfl,
            hdelimiter.2, hdelimiter.1⟩
      | cons byte bytes =>
        have hplain := ha ⟨byte :: bytes, false⟩ (by simp) rfl byte (by simp)
        simp only [Dialect.specialBytes, List.mem_cons, List.mem_append, not_or] at hplain
        cases later <;>
          exact ⟨byte, _, rfl, hplain.2.2.2.2,
            hplain.2.2.2.1⟩

theorem readAll_writeRow (hd : d.Writable) {row : WrittenRow} (hwidth : 0 < width)
    (ha : row.Allowed d width) (hw : ∀ row ∈ rows, row.length = width)
    (he : d.expectedFields = none ∨ d.expectedFields = some width) (h : Between d rows s) :
    ∃ t, s.readAll d (d.writeRow row) = .ok t ∧ Between d (rows ++ [row.values]) t := by
  have hn : row.fields ≠ [] := by
    intro hnil
    have hempty := ha.width
    rw [hnil, List.length_nil] at hempty
    omega
  obtain ⟨c, rest, hfirst, hending, hcomment⟩ := writeFields_eq_cons hd hn ha.filled ha.fields
  obtain ⟨t, hstart, hclean, hread⟩ := readByte_between hd hending hcomment h
  obtain ⟨u, hu, hfieldRead, hfields⟩ := readAll_writeFields hd hn ha.fields hstart hclean
  obtain ⟨v, hv, hbetween⟩ := readAll_writeEnding hd row.ending hfieldRead hfields hw
    (by simpa using ha.width) he
  have hsame : s.readAll d (d.writeFields row.fields) = t.readAll d (d.writeFields row.fields) := by
    rw [hfirst, readAll_cons, readAll_cons, hread]
  refine ⟨v, ?_, hbetween⟩
  rw [Dialect.writeRow, readAll_append, hsame, hu, ok_bind, hv]

theorem readAll_write (hd : d.Writable) {written : List WrittenRow} (hwidth : 0 < width)
    (ha : ∀ row ∈ written, row.Allowed d width) (hw : ∀ row ∈ rows, row.length = width)
    (he : d.expectedFields = none ∨ d.expectedFields = some width) (h : Between d rows s) :
    ∃ t, s.readAll d (d.write written) = .ok t ∧
      Between d (rows ++ written.map (·.values)) t := by
  induction written generalizing rows s with
  | nil => exact ⟨s, rfl, by simpa using h⟩
  | cons row later ih =>
    have hrow := ha row (by simp)
    obtain ⟨t, ht, hbetween⟩ := readAll_writeRow hd hwidth hrow hw he h
    have hmore : ∀ row' ∈ rows ++ [row.values], row'.length = width := by
      intro row' hmem
      rcases List.mem_append.1 hmem with hmem | hmem
      · exact hw row' hmem
      · rw [List.mem_singleton.1 hmem, WrittenRow.values, List.length_map, hrow.width]
    obtain ⟨u, hu, hend⟩ := ih (fun row' h' => ha row' (by simp [h'])) hmore hbetween
    refine ⟨u, ?_, by simpa using hend⟩
    rw [Dialect.write, List.flatMap_cons, readAll_append, ht, ok_bind]
    exact hu

theorem finish_between (h : Between d rows s) :
    ∃ t, s.finish d = .ok t ∧ t.state = .finished ∧ t.Clean rows [] [] := by
  cases h with
  | settled hs hc =>
    refine ⟨s.enter .finished, ?_, rfl, hc.enter _⟩
    rw [finish, endLastLine, hs]
    rfl
  | pending hs hr hc =>
    obtain ⟨t, ht, hc⟩ := hc
    refine ⟨t.enter .finished, ?_, rfl, hc.enter _⟩
    rw [finish, endLastLine, hs]
    simp only [ht, ok_bind]
    rfl

theorem between_start (d : Dialect) (headerLines : Nat) (anyWidth : Bool) :
    Between d [] { headerLines := headerLines, anyWidth := anyWidth } :=
  .settled rfl ⟨holds_empty headerLines anyWidth, rfl, rfl⟩

end Splitter

/-- Splitting the text of `rows` gives back their fields byte for byte, as many lines as rows, and no
warning, whatever pieces the text comes in. -/
theorem Session.tokenizeAll_write (d : Dialect) (hd : d.Writable) (width : Nat) (hwidth : 0 < width)
    (he : d.expectedFields = none ∨ d.expectedFields = some width) (rows : List WrittenRow)
    (ha : ∀ row ∈ rows, row.Allowed d width) (hmark : ¬ byteOrderMark <+: d.write rows)
    (headerLines : Nat) (anyWidth : Bool) (chunkSize : Nat) (feed : Feed)
    (hcontent : feed.content = d.write rows) (hfailures : feed.failures = 0) :
    let p := (Session.start headerLines anyWidth chunkSize).tokenizeAll d feed
    p.fault = none ∧ p.session.isFinished = true ∧
      p.session.splitter.rows = rows.map (·.values) ∧ p.session.splitter.warnings = #[] ∧
      p.session.splitter.fileLines = rows.length := by
  intro p
  obtain ⟨t, ht, hbetween⟩ := Splitter.readAll_write hd hwidth ha (List.forall_mem_nil _) he
    (Splitter.between_start d headerLines anyWidth)
  obtain ⟨u, hu, hfinished, hclean⟩ := Splitter.finish_between hbetween
  have hending : (Session.start headerLines anyWidth chunkSize).ending d feed.content = .ok u := by
    rw [Session.ending, Session.toSplit_of_matched rfl, hcontent]
    rw [List.take_zero, List.nil_append, Session.withoutMark, if_neg hmark]
    exact bind_eq_ok_iff.2 ⟨t, ht, hu⟩
  have houtcome := Session.tokenizeRetrying_waiting (d := d) 0 feed
    (Session.waiting_start headerLines anyWidth chunkSize) (Nat.le_of_eq hfailures)
  rw [hending] at houtcome
  obtain ⟨hfault, hsplitter⟩ := Prod.mk.inj houtcome
  have hsplitter : p.session.splitter = u := hsplitter
  refine ⟨hfault, ?_, ?_, ?_, ?_⟩
  · rw [Session.isFinished, hsplitter, Splitter.isFinished, hfinished]
    rfl
  · rw [hsplitter, hclean.toHolds.rows_eq]
    simp
  · rw [hsplitter, hclean.quiet]
  · rw [hsplitter, hclean.counted]
    simp

/-- Two rows with a delimiter, a line ending and a quote between quotes and a lone return between
them. -/
theorem Session.tokenizeAll_write_mixed :
    let d : Dialect := { escapeChar := some 92 }
    let rows : List WrittenRow :=
      [⟨[⟨[44, 13, 10, 34, 92], true⟩, ⟨[98], false⟩], .loneReturn⟩,
        ⟨[⟨[], false⟩, ⟨[35, 0], true⟩], .returnAndFeed⟩]
    let p := (Session.start 0 false 3).tokenizeAll d (.memory (d.write rows))
    p.fault = none ∧ p.session.isFinished = true ∧
      p.session.splitter.rows = rows.map (·.values) ∧ p.session.splitter.warnings = #[] ∧
      p.session.splitter.fileLines = rows.length := by
  intro d rows
  have hd : d.Writable :=
    { quotes := by decide
      doubles := rfl
      delimited := rfl
      initialSpace := rfl
      emptyLines := rfl
      skippedLines := rfl
      skippedFirstLines := rfl
      distinct := by decide }
  have ha : ∀ row ∈ rows, row.Allowed d 2 := by
    intro row hmem
    obtain rfl | rfl : row = _ ∨ row = _ := by simpa [rows] using hmem
    · exact ⟨rfl, by unfold WrittenField.Allowed; decide +kernel, by decide⟩
    · exact ⟨rfl, by unfold WrittenField.Allowed; decide +kernel, by decide⟩
  exact Session.tokenizeAll_write d hd 2 (by decide) (.inl rfl) rows ha (by decide) 0 false 3
    (.memory (d.write rows)) rfl rfl

end TypedTable.Csv
