import TypedTable.Proofs.Csv.Entries
import TypedTable.Proofs.Csv.Skipping
import TypedTable.Proofs.Csv.Stepping
import TypedTable.Proofs.Csv.Widths

/-!
# Reads of some columns

A read of some columns lets lines have any number of fields, a read of all columns fills lines up
and drops them. Where all lines have one width there is nothing to fill up or to drop, so both read
the same lines, and the one has the columns of the other that it asks for.
-/

set_option autoImplicit false

namespace TypedTable.Csv

namespace Splitter

variable {d : Dialect} {s t : Splitter} {width : Nat} {p : OpenPart}

/-! ## Lines of one width -/

/-- `s` lets lines have any number of fields. It is `t` otherwise, unless it has committed a line
with another number of fields than `width`. -/
structure Loosens (width : Nat) (p : OpenPart) (s t : Splitter) : Prop where
  state : s.state = t.state
  heldBlanks : s.heldBlanks = t.heldBlanks
  fileLines : s.fileLines = t.fileLines
  anyWidth : s.anyWidth = true
  lines : s = { t with anyWidth := true } ∨ ∃ line ∈ s.lines, line.fields ≠ width

namespace Loosens

/-- The committed lines stay, so a line of another width does. -/
theorem other {line : Line} (hm : line ∈ s.lines) (hne : line.fields ≠ width) :
    ∃ line ∈ s.commitLine.lines, line.fields ≠ width :=
  ⟨line, Array.mem_push.2 (.inl hm), hne⟩

/-- A line that does not have the width it has to have is one of another width than `width`, or
follows one. -/
theorem commits (hset : d.expectedFields = none ∨ d.expectedFields = some width)
    (h : s = { t with anyWidth := true }) {u : Splitter} (hskip : t.state.isSkipping = false)
    (hended : t.endLine d = .ok u) :
    s.commitLine = { u with anyWidth := true } ∨
      ∃ line ∈ s.commitLine.lines, line.fields ≠ width := by
  subst h
  rw [Splitter.endLine, if_neg (by simp [hskip])] at hended
  cases hrequired : t.requiredFields d with
  | none =>
    rw [hrequired] at hended
    obtain rfl := Except.ok.inj hended
    exact .inl rfl
  | some expected =>
    rw [hrequired] at hended
    by_cases hexpected : expected = width
    · subst hexpected
      by_cases hopen : t.openFields = expected
      · rw [hopen] at hended
        simp only [Nat.lt_irrefl, if_false, Nat.sub_self, padLine, if_true] at hended
        obtain rfl := Except.ok.inj hended
        exact .inl rfl
      · exact .inr ⟨_, Array.mem_push.2 (.inr rfl), hopen⟩
    · unfold Splitter.requiredFields at hrequired
      split_ifs at hrequired
      rcases hset with hset | hset
      · rw [hset] at hrequired
        obtain ⟨last, hlast, hfields⟩ := Option.map_eq_some_iff.1 hrequired
        refine .inr (other (s := { t with anyWidth := true }) (Array.mem_of_back? hlast) ?_)
        rwa [hfields]
      · rw [hset] at hrequired
        exact absurd (Option.some.inj hrequired).symm hexpected

theorem endLine (hset : d.expectedFields = none ∨ d.expectedFields = some width)
    (h : Loosens width p s t) :
    Agree (Loosens width) (fun _ => True) (Loosens width .nothing) (s.endLine d) (t.endLine d) := by
  cases hskip : t.state.isSkipping with
  | true =>
    have hsskip : s.state.isSkipping = true := (congrArg _ h.state).trans hskip
    rw [endLine_skipped d hsskip, endLine_skipped d hskip]
    exact .ok { h with
      fileLines := congrArg (· + 1) h.fileLines
      lines := h.lines.imp (congrArg fun s : Splitter => s.countLine.discardLine) id }
  | false =>
    have hsskip : s.state.isSkipping = false := (congrArg _ h.state).trans hskip
    rw [endLine_anyWidth d h.anyWidth hsskip]
    cases hended : t.endLine d with
    | error halted => exact .excused trivial
    | ok u =>
      have hu := ended_of_endLine hended
      refine .ok ⟨h.state.trans hu.state.symm, h.heldBlanks.trans hu.heldBlanks.symm, ?_,
        h.anyWidth, ?_⟩
      · rw [hu.fileLines, ← h.fileLines]
        rfl
      · rcases h.lines with hsame | ⟨line, hm, hne⟩
        · exact commits hset hsame hskip hended
        · exact .inr (other hm hne)

theorem lockstep (hset : d.expectedFields = none ∨ d.expectedFields = some width) :
    Lockstep d (fun _ => True) (Loosens width) where
  state := Loosens.state
  heldBlanks := Loosens.heldBlanks
  fileLines := Loosens.fileLines
  loosen h _ := { h with }
  enter state h := { h with state := rfl, lines := h.lines.imp (congrArg (enter · state)) id }
  push byte h := { h with lines := h.lines.imp (congrArg (push · byte)) id }
  closeField h := { h with lines := h.lines.imp (congrArg closeField) id }
  countLine h := { h with
    fileLines := congrArg (· + 1) h.fileLines
    lines := h.lines.imp (congrArg countLine) id }
  discardLine h := { h with lines := h.lines.imp (congrArg discardLine) id }
  hold blanks h := { h with
    heldBlanks := rfl
    lines := h.lines.imp (congrArg fun s : Splitter => { s with heldBlanks := blanks }) id }
  endLine h _ _ := h.endLine hset

end Loosens

end Splitter

/-! ## Columns of a matrix -/

namespace Matrix

variable {d : Dialect} {type : FieldType} {s : Splitter} {lines : List Line} {columns : List Nat}
  {width : Nat}

def pick {α : Type} (missing : α) (columns : List Nat) (entries : List α) : List α :=
  columns.map fun col => entries.getD col missing

theorem width_pick {α : Type} (missing : α) (columns : List Nat) (values : List (List α)) :
    ∀ entries ∈ values.map (pick missing columns), entries.length = columns.length := by
  intro entries hm
  obtain ⟨row, -, rfl⟩ := List.mem_map.1 hm
  exact List.length_map _

theorem CellAt.pick {α : Type} {values : List (List α)} {row col place : Nat} {value : α}
    (missing : α) (hplace : columns[place]? = some col) (h : CellAt values row col value) :
    CellAt (values.map (pick missing columns)) row place value := by
  obtain ⟨entries, hrow, hcol⟩ := h
  refine ⟨Matrix.pick missing columns entries, by rw [List.getElem?_map, hrow]; rfl, ?_⟩
  rw [Matrix.pick, List.getElem?_map, hplace, Option.map_some, List.getD_eq_getElem?_getD, hcol]
  rfl

theorem Reads.pick (hn : lines ≠ []) (hw : ∀ line ∈ lines, line.fields = width)
    (hcolumns : ∀ col ∈ columns, col < width) {values : List (List type.Carrier)}
    (h : Reads d type (dataFields none s lines) values) :
    Reads d type (dataFields (some columns) s lines)
      (values.map (Matrix.pick type.missing columns)) := by
  rw [Reads, dataFields, sourceColumns_even hn hw, List.forall₂_map_left_iff] at h
  rw [Reads, dataFields, List.forall₂_map_left_iff, List.forall₂_map_right_iff]
  refine h.imp fun line entries hentries => ?_
  rw [List.forall₂_map_left_iff] at hentries
  rw [Matrix.pick, sourceColumns, Option.getD_some, List.forall₂_map_left_iff,
    List.forall₂_map_right_iff, List.forall₂_same]
  intro col hm
  have hlength : entries.length = width := by
    rw [← hentries.length_eq, List.length_range]
  have hcol := hcolumns col hm
  have hvalue := hentries.get (i := col) (by simpa using hcol) (hlength ▸ hcol)
  rw [List.getD_eq_getElem _ _ (hlength ▸ hcol)]
  simpa using hvalue

theorem checkWidth_columns (hw : ∀ line ∈ lines, line.fields = width)
    (hcolumns : ∀ col ∈ columns, col < width) :
    checkWidth (some columns) (neededFields (some columns) lines) lines = .ok () := by
  have hneeded : neededFields (some columns) lines ≤ width := by
    rw [neededFields]
    cases hlast : columns.max? with
    | none => exact Nat.zero_le _
    | some last =>
      have hlt := hcolumns last (List.max?_mem hlast)
      exact (Nat.mod_le _ _).trans hlt
  have hnone : lines.find? (isRagged (some columns) (neededFields (some columns) lines)) = none := by
    rw [List.find?_eq_none]
    intro line hm
    simp [isRagged, hw line hm, hneeded]
  rw [checkWidth, hnone]

end Matrix

namespace Reading

variable {type : FieldType} {s : Settings} {feed : Feed} {splitter : Splitter} {columns : List Nat}
  {width : Nat} {names : Option (List String)}

theorem nameColumns_columns (hall : s.columns = none)
    (hw : ∀ line ∈ splitter.lines, line.fields = width) (hcolumns : ∀ col ∈ columns, col < width)
    {cols : Nat} (cols' : Nat) (h : nameColumns s splitter cols = .ok names) :
    ∃ picked, nameColumns { s with columns := some columns } { splitter with anyWidth := true }
        cols' = .ok picked ∧
      picked.map (·.map some) = names.map fun names => columns.map (names[·]?) := by
  unfold nameColumns at h ⊢
  dsimp only
  split_ifs at h ⊢ with hnamed
  · obtain ⟨heading, hheading⟩ : ∃ heading, splitter.lines[0]? = some heading :=
      ⟨_, Array.getElem?_eq_getElem hnamed.2⟩
    have hfields : heading.fields = width := hw heading (Array.mem_of_getElem? hheading)
    have hnone : columns.find? (fun column => decide (heading.fields ≤ column)) = none := by
      rw [List.find?_eq_none]
      intro col hm
      have := hcolumns col hm
      simp [hfields, this]
    rw [hall] at h
    unfold headingTexts at h ⊢
    rw [hheading] at h ⊢
    dsimp only at h ⊢
    rw [hnone]
    split_ifs at h with hcols
    · cases h
    obtain rfl := Except.ok.inj h
    refine ⟨_, rfl, ?_⟩
    simp only [Option.map_some, List.map_map, Option.some.injEq]
    refine List.map_congr_left fun col hm => ?_
    have hcol : col < heading.fields := hfields ▸ hcolumns col hm
    simp [hcol]
  · obtain rfl := Except.ok.inj h
    exact ⟨none, rfl, rfl⟩

open Splitter in
/-- Where all lines have one width they are the same, whatever width they may have. -/
theorem split_columns (columns : List Nat) (hall : s.columns = none)
    (hset : s.dialect.expectedFields = none ∨ s.dialect.expectedFields = some width)
    (hwidth : ∀ line ∈ ((Session.start s.headerLines true s.chunkSize).tokenizeAll s.dialect
      feed).session.splitter.lines, line.fields = width)
    (hsplit : split s feed = .ok splitter) :
    split { s with columns := some columns } feed = .ok { splitter with anyWidth := true } ∧
      ∀ line ∈ splitter.lines, line.fields = width := by
  have hstart : s.session = Session.start s.headerLines false s.chunkSize := by
    rw [Settings.session, hall]
    rfl
  have hsteady : Steady (Loosens width) { headerLines := s.headerLines, anyWidth := true }
      s.session.splitter := by
    rw [hstart]
    exact ⟨rfl, rfl, rfl, rfl, .inl rfl⟩
  have hagree : Progress.Agree (Loosens width) (fun _ => True)
      ((Session.start s.headerLines true s.chunkSize).tokenizeAll s.dialect feed)
      (s.session.tokenizeAll s.dialect feed) :=
    Session.agree_tokenize (Loosens.lockstep hset) (fun _ => rfl) feed
      ⟨hsteady, by rw [hstart]; rfl, by rw [hstart]; rfl, by rw [hstart]; rfl, by rw [hstart]; rfl⟩
  have hsplit := split_eq_ok_iff.1 hsplit
  rw [split_eq_ok_iff]
  show ((Session.start s.headerLines true s.chunkSize).tokenizeAll s.dialect feed).outcome = _ ∧ _
  generalize (Session.start s.headerLines true s.chunkSize).tokenizeAll s.dialect feed = first
    at hagree hwidth ⊢
  generalize s.session.tokenizeAll s.dialect feed = second at hagree hsplit
  obtain ⟨hfault, rfl⟩ := Prod.mk.inj hsplit
  cases hagree with
  | ok feed h =>
    rcases h.splitter.lines with hsame | ⟨line, hm, hne⟩
    · refine ⟨Prod.ext rfl hsame, fun line hm => hwidth line ?_⟩
      show line ∈ Splitter.lines _
      rwa [hsame]
    · exact absurd (hwidth line hm) hne
  | fault _ h => cases hfault
  | excused hq => simp [hq] at hfault

theorem exists_lines_of_read {reading : Reading type} (hread : read type s (.ok feed) = .ok reading)
    (hrows : 0 < reading.rows) : ∃ splitter, split s feed = .ok splitter ∧ lines s splitter ≠ [] := by
  obtain ⟨⟨⟩, -, hread⟩ := bind_eq_ok_iff.1 hread
  rw [ok_bind] at hread
  obtain ⟨splitter, hsplit, hread⟩ := bind_eq_ok_iff.1 hread
  rw [ofSplitter_eq] at hread
  obtain ⟨matrix, hmatrix, hread⟩ := bind_eq_ok_iff.1 hread
  obtain ⟨found, -, hread⟩ := bind_eq_ok_iff.1 hread
  obtain rfl := Except.ok.inj hread
  refine ⟨splitter, hsplit, fun hlines => ?_⟩
  have hof : Matrix.ofLines s.dialect type s.plan splitter = _ := if_pos (List.isEmpty_iff.2 hlines)
  rw [hof] at hmatrix
  obtain rfl := Except.ok.inj hmatrix
  exact Nat.lt_irrefl 0 hrows

theorem check_columns (hn : columns ≠ []) (hdistinct : columns.Nodup) (h : s.check = .ok ()) :
    ({ s with columns := some columns } : Settings).check = .ok () := by
  obtain ⟨⟨⟩, hdialect, h⟩ := bind_eq_ok_iff.1 (mapError_eq_ok_iff.1 h)
  have hchecked : Settings.checkColumns (some columns) = .ok () := by
    simp [Settings.checkColumns, hn, hdistinct]
  refine mapError_eq_ok_iff.2 (bind_eq_ok_iff.2 ⟨(), hdialect, ?_⟩)
  dsimp only at h ⊢
  split_ifs at h ⊢
  · cases h
  · exact hchecked

theorem width_lines (hw : ∀ line ∈ splitter.lines, line.fields = width) :
    ∀ line ∈ lines s splitter, line.fields = width := by
  intro line hm
  obtain ⟨index, hi, -, rfl⟩ := Matrix.mem_dataLines hm
  exact hw _ (Array.getElem_mem hi)

theorem ready_columns (hall : s.columns = none) (hn : columns ≠ []) (hdistinct : columns.Nodup)
    (hw : ∀ line ∈ splitter.lines, line.fields = width) (hcolumns : ∀ col ∈ columns, col < width)
    (h : Ready s splitter names) :
    ∃ picked, Ready { s with columns := some columns } { splitter with anyWidth := true } picked ∧
      picked.map (·.map some) = names.map fun names => columns.map (names[·]?) := by
  obtain ⟨picked, hnamed, hpicked⟩ := nameColumns_columns hall hw hcolumns columns.length h.named
  refine ⟨picked, ⟨check_columns hn hdistinct h.valid, ?_, hnamed⟩, hpicked⟩
  exact Matrix.checkWidth_columns (width_lines hw) hcolumns

end Reading

/-- Where all lines have one width, a read of some columns succeeds if a read of all columns finds
data. It has their entries and headings, and as many rows and the same status. -/
theorem read_columns (type : FieldType) (s : Settings) (feed : Feed) (columns : List Nat)
    (width : Nat) (hall : s.columns = none) (hwarn : s.warnForMissing = false) (hn : columns ≠ [])
    (hdistinct : columns.Nodup)
    (hset : s.dialect.expectedFields = none ∨ s.dialect.expectedFields = some width)
    (hwidth : ∀ line ∈ ((Session.start s.headerLines true s.chunkSize).tokenizeAll s.dialect
      feed).session.splitter.lines, line.fields = width)
    (hcolumns : ∀ col ∈ columns, col < width) {reading : Reading type}
    (hread : read type s (.ok feed) = .ok reading) (hrows : 0 < reading.rows) :
    ∃ projected, read type { s with columns := some columns } (.ok feed) = .ok projected ∧
      projected.rows = reading.rows ∧ projected.cols = columns.length ∧
      projected.status = reading.status ∧ projected.remarks = reading.remarks ∧
      projected.data.size = projected.rows * projected.cols ∧
      (∀ row < reading.rows, ∀ place col, columns[place]? = some col → ∃ value,
        reading.data[s.order.offset row col reading.rows reading.cols]? = some value ∧
        projected.data[s.order.offset row place projected.rows projected.cols]? = some value) ∧
      projected.headings.map (·.map some) =
        reading.headings.map fun names => columns.map (names[·]?) := by
  obtain ⟨splitter, hsplit, hlines⟩ := Reading.exists_lines_of_read hread hrows
  obtain ⟨hloose, hw⟩ := Reading.split_columns columns hall hset hwidth hsplit
  obtain ⟨names, values, hready, hvalues, rfl⟩ :=
    (Reading.read_eq_ok_iff hsplit hlines hwarn).1 hread
  obtain ⟨picked, hpicks, hpicked⟩ :=
    Reading.ready_columns hall hn hdistinct hw hcolumns hready
  have hlineWidth := Reading.width_lines (s := s) hw
  have hsources : Reading.sources s splitter = List.range width := by
    rw [Reading.sources, hall]
    exact Matrix.sourceColumns_even hlines hlineWidth
  have hwidths : ∀ entries ∈ values, entries.length = width := by
    refine hvalues.width fun row hm => ?_
    rw [Reading.width_fields s splitter row hm, hsources, List.length_range]
  have hlength : values.length = (Reading.lines s splitter).length := by
    rw [hvalues.length, Reading.length_fields]
  have hpicks' := Matrix.width_pick type.missing columns values
  have hpickLength : (values.map (Matrix.pick type.missing columns)).length =
      (Reading.lines s splitter).length := by rw [List.length_map, hlength]
  -- the entries that are read are picked out of those of all columns, so none can fail
  have hpick : Matrix.Reads s.dialect type
      (Reading.fields { s with columns := some columns } { splitter with anyWidth := true })
      (values.map (Matrix.pick type.missing columns)) := by
    rw [Reading.fields, hall] at hvalues
    exact hvalues.pick hlines hlineWidth hcolumns
  refine ⟨_, (Reading.read_eq_ok_iff hloose hlines hwarn).2 ⟨picked, _, hpicks, hpick, rfl⟩, rfl, rfl,
    rfl, rfl, ?_, fun row hrow place col hplace => ?_, hpicked⟩
  · have hsize := Matrix.size_arrange s.order type.missing hpicks'
    rw [hpickLength] at hsize
    exact hsize
  · have hr : row < values.length := hlength ▸ hrow
    have hcol : col < values[row].length := by
      rw [hwidths _ (List.getElem_mem hr)]
      exact hcolumns col (List.mem_of_getElem? hplace)
    have hcell : Matrix.CellAt values row col values[row][col] :=
      ⟨_, List.getElem?_eq_getElem hr, List.getElem?_eq_getElem hcol⟩
    have hread := Matrix.getElem?_arrange s.order type.missing hwidths hcell
    have hpicked := Matrix.getElem?_arrange s.order type.missing hpicks'
      (hcell.pick type.missing hplace)
    rw [hpickLength] at hpicked
    rw [hlength] at hread
    refine ⟨values[row][col], ?_, hpicked⟩
    show (Matrix.arrange _ _ (Reading.sources s splitter).length _ _)[s.order.offset row col _
      (Reading.sources s splitter).length]? = _
    rw [hsources, List.length_range]
    exact hread

/-- The last column and the first, between headings and a footer. -/
theorem read_columns_footer :
    let s : Settings := { header := true, skipFooter := true, order := .columnMajor }
    let feed : Feed := .memory (CellValue.bytes "a,b,c\n1,2,3\n4,5,6\nx,y,z\n")
    ∃ reading projected : Reading (.scalar .int),
      read _ s (.ok feed) = .ok reading ∧ reading.rows = 2 ∧ reading.data = #[1, 4, 2, 5, 3, 6] ∧
      reading.headings = some ["a", "b", "c"] ∧
      read _ { s with columns := some [2, 0] } (.ok feed) = .ok projected ∧
      projected.rows = reading.rows ∧ projected.cols = 2 ∧ projected.status = reading.status ∧
      projected.remarks = reading.remarks ∧
      projected.data.size = projected.rows * projected.cols ∧
      (∀ row < reading.rows, ∀ place col, [2, 0][place]? = some col → ∃ value,
        reading.data[s.order.offset row col reading.rows reading.cols]? = some value ∧
        projected.data[s.order.offset row place projected.rows projected.cols]? = some value) ∧
      projected.headings.map (·.map some) =
        reading.headings.map fun names => [2, 0].map (names[·]?) := by
  intro s feed
  have hfound : (read (.scalar .int) s (.ok feed)).toOption.map
      (fun reading => (reading.rows, reading.data, reading.headings)) =
        some (2, #[1, 4, 2, 5, 3, 6], some ["a", "b", "c"]) := by decide +kernel
  obtain ⟨reading, hread, hvalues⟩ := Option.map_eq_some_iff.1 hfound
  obtain ⟨hrows, hdata, hheadings⟩ : reading.rows = 2 ∧ reading.data = #[1, 4, 2, 5, 3, 6] ∧
      reading.headings = some ["a", "b", "c"] := by simpa using hvalues
  have hread : read (.scalar .int) s (.ok feed) = .ok reading := by
    cases hr : read (.scalar .int) s (.ok feed) with
    | error fault => simp [hr, Except.toOption] at hread
    | ok found => simpa [hr, Except.toOption] using hread
  obtain ⟨projected, hprojected⟩ := read_columns (.scalar .int) s feed [2, 0] 3 rfl rfl (by decide)
    (by decide) (.inl rfl) (by decide +kernel) (by decide) hread (by omega)
  exact ⟨reading, projected, hread, hrows, hdata, hheadings, hprojected⟩

end TypedTable.Csv
