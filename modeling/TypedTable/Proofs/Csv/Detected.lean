import TypedTable.Proofs.Csv.Filling
import TypedTable.Proofs.Table.Joining

/-!
# Tables of found types

A load that finds the type of each column stores what was found: every column with its type and its
values in one block, whatever columns of one type stand side by side, and under its heading unless
that is empty or came up before.
-/

set_option autoImplicit false

namespace TypedTable

namespace Table

variable {heap : Heap} {table later : Table} {col : Nat}

/-- No column goes on in a second block. -/
def Unlinked (table : Table) : Prop :=
  ∀ entry ∈ table.chains.entries, (table.arena.chain entry.2).length = 1

theorem Unlinked.appendColumns {type : ScalarType} {rows cols : Nat} {order : Order}
    {storage : Storage type} (h : table.Unlinked) (hc : table.Consistent heap)
    (hok : table.appendColumns heap rows cols order storage = .ok later) : later.Unlinked := by
  obtain ⟨dense, span, -, -, -, -, -, rfl⟩ := hc.appendColumns_eq_ok hok
  intro entry hm
  simp only [Table.addColumns, Arena.chain_addBlock]
  rcases hc.entry_addColumns span hm with ⟨hm, hchain⟩ | ⟨-, hchain⟩
  · rw [hchain]
    exact h entry hm
  · rw [hchain]
    rfl

theorem Unlinked.chainLength_eq (h : table.Unlinked) (hc : table.Consistent heap)
    (hcol : col < table.cols) : table.chainLength col = .ok 1 := by
  obtain ⟨entry, hm, hmem⟩ := hc.exists_entry hcol
  rw [hc.chainLength_eq hm hmem, h entry hm]

structure Fresh (heap : Heap) (table : Table) : Prop where
  consistent : table.Consistent heap
  complete : table.pending = none
  unlinked : table.Unlinked
  unlabeled : ∀ label ∈ table.labels.names, label = none

theorem Fresh.appendColumns {type : ScalarType} {rows cols : Nat} {order : Order}
    {storage : Storage type} (h : table.Fresh heap)
    (hok : table.appendColumns heap rows cols order storage = .ok later) : later.Fresh heap := by
  constructor
  case consistent => exact h.consistent.appendColumns hok
  case unlinked => exact h.unlinked.appendColumns h.consistent hok
  all_goals obtain ⟨dense, span, hp, -, -, -, -, rfl⟩ := h.consistent.appendColumns_eq_ok hok
  case complete => exact hp
  case unlabeled =>
    intro label hm
    rcases List.mem_append.1 hm with hold | hnew
    · exact h.unlabeled label hold
    · exact List.eq_of_mem_replicate hnew

theorem Represents.fresh (h : table.Represents heap {}) : table.Fresh heap where
  consistent := h.consistent
  complete := h.pending_eq_none rfl
  unlinked := by
    intro entry hm
    have hlt := h.consistent.lt_cols hm
    rw [h.cols] at hlt
    exact absurd hlt (Nat.not_lt_zero _)
  unlabeled := by
    have hnone : table.labels.names = [] :=
      List.eq_nil_of_length_eq_zero (h.consistent.labels.length.trans h.cols)
    simp [hnone]

theorem Represents.rows_of_column {sheet : Sheet} {column : Column}
    (h : table.Represents heap sheet) (hin : sheet.incoming = [])
    (hcol : sheet.columns[col]? = some column) : table.rows = column.values.length := by
  have hp := h.pending_eq_none hin
  have hlt : col < table.cols := h.cols ▸ (List.getElem?_eq_some_iff.1 hcol).1
  rw [← h.consistent.length_column hp hlt, h.column_eq hp hcol, Column.cells, List.length_map]

end Table

namespace Csv

open Table (Consistent)

theorem Matrix.rows_eq_zero {d : Dialect} {type : FieldType} {plan : MatrixPlan}
    {splitter : Splitter} {matrix : Matrix type} (hok : ofLines d type plan splitter = .ok matrix)
    (hnone : matrix.status = .noData) : matrix.rows = 0 := by
  unfold ofLines at hok
  dsimp only at hok
  split at hok
  · cases hok
    rfl
  · obtain ⟨u, -, hok⟩ := bind_eq_ok_iff.1 hok
    obtain ⟨rows, -, hok⟩ := bind_eq_ok_iff.1 hok
    cases hok
    dsimp only at hnone
    split at hnone <;> cases hnone

namespace Reading

variable {type : FieldType} {s : Settings} {splitter : Splitter} {feed : Feed}

theorem rows_eq_zero {reading : Reading type} (hok : read type s (.ok feed) = .ok reading)
    (hnone : reading.status = .noData) : reading.rows = 0 := by
  obtain ⟨u, -, hok⟩ := bind_eq_ok_iff.1 hok
  obtain ⟨found, -, hok⟩ := bind_eq_ok_iff.1 hok
  obtain ⟨splitter, -, hok⟩ := bind_eq_ok_iff.1 hok
  rw [ofSplitter_eq] at hok
  obtain ⟨matrix, hmatrix, hok⟩ := bind_eq_ok_iff.1 hok
  obtain ⟨names, -, hok⟩ := bind_eq_ok_iff.1 hok
  cases hok
  dsimp only at hnone ⊢
  split at hnone
  · unfold splitStatus at hnone
    split at hnone <;> cases hnone
  · exact Matrix.rows_eq_zero hmatrix hnone

end Reading

namespace Loading

variable {heap : Heap} {table later start : Table} {s : Settings} {col : Nat}

/-! ## Headings -/

/-- The label of a column: its heading unless that is empty or came up before. -/
def headingLabel (names : List String) (col : Nat) : Option String :=
  names[col]?.filter fun name => name ≠ "" ∧ name ∉ names.take col

theorem headingLabel_eq_some_iff {names : List String} {name : String} :
    headingLabel names col = some name ↔
      names[col]? = some name ∧ name ≠ "" ∧ name ∉ names.take col := by
  simp [headingLabel, Option.filter_eq_some_iff]

theorem headingLabel_append (names : List String) (name : String) (col : Nat) :
    headingLabel (names ++ [name]) col =
      if col = names.length then (if name = "" ∨ name ∈ names then none else some name)
      else headingLabel names col := by
  unfold headingLabel
  rcases Nat.lt_trichotomy col names.length with hlt | rfl | hgt
  · rw [if_neg (Nat.ne_of_lt hlt), List.getElem?_append_left hlt,
      List.take_append_of_le_length (Nat.le_of_lt hlt)]
  · rw [if_pos rfl, List.getElem?_concat_length, List.take_left]
    by_cases hname : name = "" ∨ name ∈ names <;> simp [Option.filter, ← not_or, hname]
  · rw [if_neg (Nat.ne_of_gt hgt), List.getElem?_eq_none (by simp; omega),
      List.getElem?_eq_none (Nat.le_of_lt hgt)]
    rfl

theorem headingLabel_length (names : List String) : headingLabel names names.length = none := by
  rw [headingLabel, List.getElem?_eq_none (Nat.le_refl _)]
  rfl

/-- A new heading becomes the label of the column after those that have theirs. -/
theorem relabel_heading {labels : List (Option String)} {done : List String} {name : String}
    (hnew : ¬(name = "" ∨ name ∈ done)) (hdone : done.length < labels.length)
    (hlabels : ∀ col < labels.length, labels[col]? = some (headingLabel done col)) :
    ∀ col < labels.length, (Labels.relabel labels name done.length)[col]? =
      some (headingLabel (done ++ [name]) col) := by
  intro col hcol
  rw [headingLabel_append, if_neg hnew, Labels.getElem?_relabel labels hdone]
  split_ifs with hlast
  · rfl
  · have hother : headingLabel done col ≠ some name := fun heq =>
      hnew (.inr (List.mem_of_getElem? (headingLabel_eq_some_iff.1 heq).1))
    rw [hlabels col hcol, Option.map_some, if_neg hother]

theorem headingLabel_passed {done : List String} {name : String} (hpass : name = "" ∨ name ∈ done)
    (col : Nat) : headingLabel (done ++ [name]) col = headingLabel done col := by
  rw [headingLabel_append, if_pos hpass]
  split_ifs with hlast
  · rw [hlast, headingLabel_length]
  · rfl

section Seen

variable {seen done : List String} {name : String}
  (hseen : ∀ other, other ∈ seen ↔ other ≠ "" ∧ other ∈ done)

include hseen

theorem mem_seen_passed (hpass : name = "" ∨ name ∈ done) (other : String) :
    other ∈ seen ↔ other ≠ "" ∧ other ∈ done ++ [name] := by
  rw [hseen, List.mem_append, List.mem_singleton]
  constructor
  · rintro ⟨hne, hin⟩
    exact ⟨hne, .inl hin⟩
  · rintro ⟨hne, hin | rfl⟩
    · exact ⟨hne, hin⟩
    · exact ⟨hne, hpass.resolve_left hne⟩

theorem mem_seen_labeled (hnew : ¬(name = "" ∨ name ∈ done)) (other : String) :
    other ∈ name :: seen ↔ other ≠ "" ∧ other ∈ done ++ [name] := by
  rw [List.mem_cons, hseen, List.mem_append, List.mem_singleton]
  constructor
  · rintro (rfl | ⟨hne, hin⟩)
    · exact ⟨fun hempty => hnew (.inl hempty), .inr rfl⟩
    · exact ⟨hne, .inl hin⟩
  · rintro ⟨hne, hin | rfl⟩
    · exact .inr ⟨hne, hin⟩
    · exact .inl rfl

end Seen

theorem labels_labelColumns {seen done names : List String} (h : table.Consistent heap)
    (hok : labelColumns seen names done.length table = .ok later)
    (hseen : ∀ name, name ∈ seen ↔ name ≠ "" ∧ name ∈ done)
    (hlabels : ∀ col < table.labels.names.length,
      table.labels.names[col]? = some (headingLabel done col)) :
    ∀ col < table.labels.names.length,
      later.labels.names[col]? = some (headingLabel (done ++ names) col) := by
  -- the invariant: the headings before this one have labeled their columns, and `seen` has them
  induction names generalizing seen done table with
  | nil =>
    cases hok
    rw [List.append_nil]
    exact hlabels
  | cons name names ih =>
    have hpassed : name = "" ∨ name ∈ seen ↔ name = "" ∨ name ∈ done := by
      rw [hseen]
      tauto
    have hnext : (done ++ [name]).length = done.length + 1 := by simp
    rw [labelColumns, ← hnext] at hok
    rw [← List.singleton_append, ← List.append_assoc]
    split at hok
    next hpass =>
      rw [hpassed] at hpass
      refine ih h hok (mem_seen_passed hseen hpass) fun col hcol => ?_
      rw [headingLabel_passed hpass, hlabels col hcol]
    next hlabel =>
      obtain ⟨labeled, hlabeled, hok⟩ := bind_eq_ok_iff.1 hok
      have hconsistent := h.label (mapError_eq_ok_iff.1 hlabeled)
      obtain ⟨u, -, hlabeled⟩ := refuse_bind_eq_ok_iff.1 (mapError_eq_ok_iff.1 hlabeled)
      obtain ⟨v, hcol, hlabeled⟩ := refuse_bind_eq_ok_iff.1 hlabeled
      cases hlabeled
      rw [hpassed] at hlabel
      have hnames := h.labels.names_attach name done.length
      have hdone : done.length < table.labels.names.length :=
        h.labels.length ▸ require_eq_ok.1 hcol
      have hrelabel := relabel_heading hlabel hdone hlabels
      rw [← hnames] at hrelabel
      have hlength : (table.labels.attach name done.length).names.length =
          table.labels.names.length := by
        rw [hnames, Labels.length_relabel]
      intro col hcol
      exact ih hconsistent hok (mem_seen_labeled hseen hlabel)
        (fun col hcol => hrelabel col (hlength ▸ hcol)) col (hlength.symm ▸ hcol)

/-! ## Columns -/

def detectedColumns (s : Settings) (text : Reading (.scalar .str)) : List TypedColumn :=
  TypedColumn.ofMatrix s.dialect
    { integersAsFloats := s.integersAsFloats, precision := s.precision }
    text.data text.rows text.cols

theorem length_detectedColumns (s : Settings) (text : Reading (.scalar .str)) :
    (detectedColumns s text).length = text.cols := by
  rw [detectedColumns, TypedColumn.ofMatrix, List.length_map, List.length_range]

theorem size_of_mem_detectedColumns {text : Reading (.scalar .str)} {column : TypedColumn}
    (hm : column ∈ detectedColumns s text) : column.size = text.rows := by
  obtain ⟨col, -, rfl⟩ := List.mem_map.1 hm
  rw [TypedColumn.size_ofCells, List.length_map, List.length_range]

theorem fresh_adoptGroup {rows : Nat} {group : Group} (h : table.Fresh heap)
    (hok : adoptGroup rows table group = .ok later) : later.Fresh heap := by
  rw [adoptGroup, adopt_eq heap] at hok
  exact h.appendColumns (mapError_eq_ok_iff.1 hok)

/-- A table without columns gets the columns that are found, each in one block and without a
label. -/
theorem loadDetected_columns {filled : Table} {feed : Feed} {status : Status}
    {names : Option (List String)} (h : start.Represents heap {})
    (hok : loadDetected start s feed = .ok (filled, status, names)) :
    ∃ text, read (.scalar .str) { s with order := .rowMajor } (.ok feed) = .ok text ∧
      (0 < text.rows → names = text.headings ∧ filled.Fresh heap ∧
        ∃ sheet, filled.Represents heap sheet ∧
          sheet.columns = (detectedColumns s text).map TypedColumn.toColumn) := by
  obtain ⟨text, htext, hok⟩ := bind_eq_ok_iff.1 hok
  refine ⟨text, htext, fun hrows => ?_⟩
  have hdata : text.status ≠ .noData := fun hnone =>
    Nat.ne_of_gt hrows (Reading.rows_eq_zero htext hnone)
  rw [if_neg hdata] at hok
  obtain ⟨later, hfold, hok⟩ := bind_eq_ok_iff.1 hok
  cases hok
  rw [commitGroups_eq] at hfold
  obtain ⟨sheet, hsheet, hcolumns⟩ := represents_adoptGroups h hfold
  refine ⟨rfl, ?_, sheet, hsheet, ?_⟩
  · exact foldlM_keeps (fun _ _ _ hfresh hgroup => fresh_adoptGroup hfresh hgroup) h.fresh hfold
  · rw [← columns_groupColumns fun column => size_of_mem_detectedColumns]
    exact hcolumns

end Loading

/-- A column of a table with the type and the values that were found for it, in one block, and with
its heading unless that is empty or came up before. -/
structure Stores (heap : Heap) (table : Table) (names : List String) (col : Nat)
    (column : TypedColumn) : Prop where
  type : table.columnType col = .ok column.type
  height : column.values.size = table.rows
  value : ∀ (row : Nat) (value : column.type.Carrier), column.values[row]? = some value →
    table.get heap column.type row col = .ok value
  oneBlock : table.chainLength col = .ok 1
  heading : ∀ name, names[col]? = some name →
    (table.labeledColumn name = .ok col ↔ name ≠ "" ∧ name ∉ names.take col)
  label : table.columnLabel col = .ok ((Loading.headingLabel names col).getD "")

open Loading

variable {heap : Heap} {start table filled : Table} {s : Settings} {input : Except ReadFault Feed}
  {status : Status}

theorem stores_labelColumns {sheet : Sheet} {columns : List TypedColumn} {names : List String}
    (hfresh : filled.Fresh heap) (hsheet : filled.Represents heap sheet)
    (hcolumns : sheet.columns = columns.map TypedColumn.toColumn)
    (hok : labelColumns [] names 0 filled = .ok table) {col : Nat} {column : TypedColumn}
    (hcol : columns[col]? = some column) : Stores heap table names col column := by
  have hlater := represents_labelColumns hsheet hok
  have hplace : sheet.columns[col]? = some column.toColumn := by
    rw [hcolumns, List.getElem?_map, hcol]
    rfl
  have hin := hsheet.incoming_eq_nil hfresh.complete
  have hlt : col < table.cols := hlater.cols ▸ (List.getElem?_eq_some_iff.1 hplace).1
  have hlabels : ∀ other < table.cols,
      table.labels.names[other]? = some (headingLabel names other) := by
    have hnone : ∀ other < filled.labels.names.length,
        filled.labels.names[other]? = some (headingLabel [] other) := fun other hother => by
      rw [List.getElem?_eq_getElem hother, hfresh.unlabeled _ (List.getElem_mem hother)]
      rfl
    rw [hlater.cols, ← hsheet.cols, ← hfresh.consistent.labels.length]
    exact labels_labelColumns hfresh.consistent hok (by simp) hnone
  have hunlinked : table.Unlinked := by
    obtain ⟨labels, rfl⟩ := labelColumns_labels hok
    exact hfresh.unlinked
  constructor
  case type => exact hlater.columnType_eq hplace
  case height => exact (hlater.rows_of_column hin hplace).symm
  case value =>
    intro row value hvalue
    have hcell : column.toColumn.values[row]? = some value :=
      Array.getElem?_toList.trans hvalue
    exact hlater.get_eq_ok hin hplace hcell
  case oneBlock => exact hunlinked.chainLength_eq hlater.consistent hlt
  case heading =>
    intro name hname
    rw [hlater.consistent.labeledColumn_eq_ok_iff, hlabels col hlt, Option.some.injEq,
      headingLabel_eq_some_iff, and_iff_right hname]
  case label =>
    obtain ⟨label, hlabel, hshown⟩ := hlater.consistent.columnLabel_eq hlt
    rw [hlabels col hlt] at hlabel
    rw [hshown, ← Option.some.inj hlabel]

/-- A load that finds the types of the columns reads texts, and stores what is found in them: every
column with its type and its values, in one block, under its heading unless that is empty or came up
before. -/
theorem load_detected (h : start.Represents heap {}) (hauto : s.loadType = .auto)
    (hok : load start s input = .ok (table, status)) :
    ∃ text, read (.scalar .str) { s with order := .rowMajor } input = .ok text ∧
      (0 < text.rows →
        (0 < text.cols → table.rows = text.rows) ∧ table.cols = text.cols ∧
        (detectedColumns s text).length = text.cols ∧
        ∀ (col : Nat) (column : TypedColumn), (detectedColumns s text)[col]? = some column →
          Stores heap table (text.headings.getD []) col column) := by
  cases input with
  | error fault => cases hok
  | ok feed =>
    obtain ⟨filled, names, hfilled, hlabeled⟩ := (load_eq_ok_iff h).1 hok
    rw [hauto] at hfilled
    obtain ⟨text, htext, hfound⟩ := loadDetected_columns h hfilled
    refine ⟨text, htext, fun hrows => ?_⟩
    obtain ⟨rfl, hfresh, sheet, hsheet, hcolumns⟩ := hfound hrows
    have hstores {col : Nat} {column : TypedColumn}
        (hcol : (detectedColumns s text)[col]? = some column) :
        Stores heap table (text.headings.getD []) col column :=
      stores_labelColumns hfresh hsheet hcolumns hlabeled hcol
    have hcols : table.cols = text.cols := by
      rw [(represents_labelColumns hsheet hlabeled).cols, hcolumns, List.length_map,
        length_detectedColumns]
    refine ⟨fun hpos => ?_, hcols, length_detectedColumns s text, fun col column => hstores⟩
    have hfirst : 0 < (detectedColumns s text).length := by
      rwa [length_detectedColumns]
    rw [← (hstores (List.getElem?_eq_getElem hfirst)).height]
    exact size_of_mem_detectedColumns (List.getElem_mem hfirst)

/-- Two columns of integers, one of texts and one of integers, with headings that are empty or
repeated. -/
theorem load_detected_runs :
    let s : Settings := { header := true, loadType := .auto }
    let input : Except ReadFault Feed := .ok (.memory
      [97, 44, 44, 97, 44, 98, 10, 49, 44, 50, 44, 120, 44, 51, 10, 52, 44, 53, 44, 121, 44, 54, 10])
    ∃ table status text, load .empty s input = .ok (table, status) ∧
      read (.scalar .str) { s with order := .rowMajor } input = .ok text ∧
      text.rows = 2 ∧ table.rows = 2 ∧ table.cols = 4 ∧
      table.columnType 2 = .ok .str ∧ table.labeledColumn "b" = .ok 3 ∧
      ∀ (col : Nat) (column : TypedColumn), (detectedColumns s text)[col]? = some column →
        Stores {} table (text.headings.getD []) col column := by
  intro s input
  have hloads : (load .empty s input).toOption.map (fun result =>
      (result.1.columnType 2, result.1.labeledColumn "b")) = some (.ok .str, .ok 3) := by
    decide +kernel
  have hshape : (read (.scalar .str) { s with order := .rowMajor } input).toOption.map
      (fun text => (text.rows, text.cols)) = some (2, 4) := by
    decide +kernel
  cases hok : load .empty s input with
  | error halted =>
    rw [hok] at hloads
    cases hloads
  | ok result =>
    obtain ⟨table, status⟩ := result
    obtain ⟨text, htext, hstored⟩ :=
      load_detected (Table.Represents.empty {}) rfl hok
    rw [hok] at hloads
    rw [htext] at hshape
    obtain ⟨htype, hlabel⟩ := Prod.mk.inj (Option.some.inj hloads)
    obtain ⟨hrows, hcols⟩ := Prod.mk.inj (Option.some.inj hshape)
    obtain ⟨hheight, hwidth, -, hstores⟩ := hstored (by omega)
    exact ⟨table, status, text, rfl, htext, hrows, (hheight (by omega)).trans hrows,
      hwidth.trans hcols, htype, hlabel, hstores⟩

end Csv

end TypedTable
