import TypedTable.Proofs.Csv.Detecting
import TypedTable.Proofs.Csv.Grouping
import TypedTable.Proofs.Csv.Loading
import TypedTable.Proofs.Sheet.Views

/-!
# Integers that are asked for and integers that are found

A load of integers and one that finds the type of each column read the same lines. The one succeeds
just if the other does and finds nothing but integers; then the tables they fill stand for one sheet.
-/

set_option autoImplicit false

namespace TypedTable.Csv

namespace Reading

def lines (s : Settings) (splitter : Splitter) : List Line := Matrix.dataLines s.plan splitter

def sources (s : Settings) (splitter : Splitter) : List Nat :=
  Matrix.sourceColumns s.columns (lines s splitter)

def fields (s : Settings) (splitter : Splitter) : List (List (List UInt8)) :=
  Matrix.dataFields s.columns splitter (lines s splitter)

def nameColumns (s : Settings) (splitter : Splitter) (cols : Nat) :
    Except ReadFault (Option (List String)) :=
  if s.header ∧ 0 < splitter.lines.size then
    (headingTexts s.dialect splitter cols s.columns).map some
  else
    pure none

structure Ready (s : Settings) (splitter : Splitter) (names : Option (List String)) : Prop where
  valid : s.check = .ok ()
  width : Matrix.checkWidth s.columns (Matrix.neededFields s.columns (lines s splitter))
    (lines s splitter) = .ok ()
  named : nameColumns s splitter (sources s splitter).length = .ok names

variable {type : FieldType} {s : Settings} {splitter : Splitter} {feed : Feed}

def ofRows (type : FieldType) (s : Settings) (splitter : Splitter) (names : Option (List String))
    (values : List (List type.Carrier)) : Reading type :=
  { data := Matrix.arrange s.order (lines s splitter).length (sources s splitter).length
      type.missing values.flatten.toArray
    rows := (lines s splitter).length
    cols := (sources s splitter).length
    headings := names
    status := splitStatus splitter
    remarks := splitter.warnings.toList.map .droppedLine ++ ignoredLines splitter ++ [] }

theorem length_fields (s : Settings) (splitter : Splitter) :
    (fields s splitter).length = (lines s splitter).length := List.length_map _

theorem width_fields (s : Settings) (splitter : Splitter) :
    ∀ row ∈ fields s splitter, row.length = (sources s splitter).length :=
  Matrix.dataFields_width s.columns splitter (lines s splitter)

theorem split_eq_ok (h : (s.session.tokenizeAll s.dialect feed).fault = none) :
    split s feed = .ok (s.session.tokenizeAll s.dialect feed).session.splitter := by
  unfold split
  dsimp only
  rw [h]

theorem split_eq_ok_iff :
    split s feed = .ok splitter ↔ (s.session.tokenizeAll s.dialect feed).outcome = (none, splitter) := by
  unfold split Progress.outcome
  dsimp only
  cases (s.session.tokenizeAll s.dialect feed).fault <;> simp

theorem ofSplitter_eq (type : FieldType) (s : Settings) (splitter : Splitter) :
    ofSplitter type s splitter = (do
      let matrix ← Matrix.ofLines s.dialect type s.plan splitter
      let names ← nameColumns s splitter matrix.cols
      return {
        data := matrix.data
        rows := matrix.rows
        cols := matrix.cols
        headings := names
        status := if matrix.status = .success then splitStatus splitter else matrix.status
        remarks := splitter.warnings.toList.map .droppedLine ++ ignoredLines splitter ++
          matrix.remarks }) := by
  unfold ofSplitter nameColumns
  congr 1
  funext matrix
  by_cases hnamed : s.header ∧ 0 < splitter.lines.size
  · simp only [if_pos hnamed]
  · simp only [if_neg hnamed]

theorem status_ofRows (s : Settings) (splitter : Splitter) (names : Option (List String))
    (values : List (List type.Carrier)) :
    (ofRows type s splitter names values).status ≠ .noData := by
  show splitStatus splitter ≠ .noData
  unfold splitStatus
  split <;> simp

/-- A read that leaves nothing missing has the values of the fields. -/
theorem read_eq_ok_iff {reading : Reading type} (hsplit : split s feed = .ok splitter)
    (hlines : lines s splitter ≠ []) (hwarn : s.warnForMissing = false) :
    read type s (.ok feed) = .ok reading ↔
      ∃ names values, Ready s splitter names ∧
        Matrix.Reads s.dialect type (fields s splitter) values ∧
        reading = ofRows type s splitter names values := by
  have hmatrix {matrix : Matrix type} :=
    @Matrix.ofLines_eq_ok_iff s.dialect type s.plan splitter matrix hlines hwarn
  constructor
  · intro h
    obtain ⟨⟨⟩, hvalid, h⟩ := bind_eq_ok_iff.1 h
    obtain ⟨found, hfound, h⟩ := bind_eq_ok_iff.1 h
    cases hfound
    obtain ⟨found, hfound, h⟩ := bind_eq_ok_iff.1 h
    obtain rfl := Except.ok.inj (hsplit.symm.trans hfound)
    rw [ofSplitter_eq] at h
    obtain ⟨matrix, hok, h⟩ := bind_eq_ok_iff.1 h
    obtain ⟨hwidth, values, hvalues, rfl⟩ := hmatrix.1 hok
    obtain ⟨names, hnames, h⟩ := bind_eq_ok_iff.1 h
    cases h
    exact ⟨names, values, ⟨hvalid, hwidth, hnames⟩, hvalues, rfl⟩
  · rintro ⟨names, values, hready, hvalues, rfl⟩
    refine bind_eq_ok_iff.2 ⟨(), hready.valid, bind_eq_ok_iff.2 ⟨feed, rfl, ?_⟩⟩
    refine bind_eq_ok_iff.2 ⟨splitter, hsplit, ?_⟩
    rw [ofSplitter_eq]
    refine bind_eq_ok_iff.2 ⟨_, hmatrix.2 ⟨hready.width, values, hvalues, rfl⟩, ?_⟩
    exact bind_eq_ok_iff.2 ⟨names, hready.named, rfl⟩

end Reading

namespace Loading

open Reading

variable {heap : Heap} {table later other : Table} {sheet : Sheet} {type : ScalarType}
  {s : Settings} {splitter : Splitter} {feed : Feed} {status : Status}
  {names : Option (List String)}

theorem loadTyped_eq_ok_iff (hsplit : split s feed = .ok splitter) (hlines : lines s splitter ≠ [])
    (hwarn : s.warnForMissing = false) :
    loadTyped type table s feed = .ok (later, status, names) ↔
      ∃ values : List (List type.Carrier), Ready s splitter names ∧
        Matrix.Reads s.dialect (.scalar type) (fields s splitter) values ∧
        adopt table (lines s splitter).length (sources s splitter).length s.order
          (Matrix.arrange s.order (lines s splitter).length (sources s splitter).length
            (FieldType.scalar type).missing values.flatten.toArray) = .ok later ∧
        status = splitStatus splitter := by
  rw [loadTyped, bind_eq_ok_iff]
  constructor
  · rintro ⟨reading, hread, h⟩
    obtain ⟨names, values, hready, hvalues, rfl⟩ := (read_eq_ok_iff hsplit hlines hwarn).1 hread
    rw [if_neg (status_ofRows _ splitter names _)] at h
    obtain ⟨filled, hfilled, h⟩ := bind_eq_ok_iff.1 h
    cases h
    exact ⟨values, hready, hvalues, hfilled, rfl⟩
  · rintro ⟨values, hready, hvalues, hfilled, rfl⟩
    refine ⟨_, (read_eq_ok_iff hsplit hlines hwarn).2 ⟨names, values, hready, hvalues, rfl⟩, ?_⟩
    rw [if_neg (status_ofRows _ splitter names _)]
    exact bind_eq_ok_iff.2 ⟨later, hfilled, rfl⟩

def foundColumns (s : Settings) (splitter : Splitter) : List TypedColumn :=
  (List.range (sources s splitter).length).map fun col =>
    TypedColumn.ofCells s.dialect
      { integersAsFloats := s.integersAsFloats, precision := s.precision }
      (Matrix.columnTexts s.dialect (fields s splitter) col)

theorem loadDetected_eq_ok_iff (hsplit : split s feed = .ok splitter)
    (hlines : lines s splitter ≠ []) (hwarn : s.warnForMissing = false) :
    loadDetected table s feed = .ok (later, status, names) ↔
      Ready s splitter names ∧
        commitGroups (lines s splitter).length none (foundColumns s splitter) table = .ok later ∧
        status = splitStatus splitter := by
  have hread {reading : Reading (.scalar .str)} :=
    @read_eq_ok_iff (.scalar .str) { s with order := .rowMajor } splitter feed reading hsplit hlines
      hwarn
  have hcolumns := Matrix.ofMatrix_texts s.dialect
    { integersAsFloats := s.integersAsFloats, precision := s.precision } (width_fields s splitter)
  rw [length_fields] at hcolumns
  rw [loadDetected, bind_eq_ok_iff]
  constructor
  · rintro ⟨reading, hok, h⟩
    obtain ⟨names, values, hready, hvalues, rfl⟩ := hread.1 hok
    obtain rfl := Matrix.eq_texts hvalues
    rw [if_neg (status_ofRows _ splitter names _)] at h
    obtain ⟨filled, hfilled, h⟩ := bind_eq_ok_iff.1 h
    cases h
    refine ⟨⟨hready.valid, hready.width, hready.named⟩, ?_, rfl⟩
    rw [foundColumns, ← hcolumns]
    exact hfilled
  · rintro ⟨hready, hfilled, rfl⟩
    refine ⟨_, hread.2 ⟨names, _, ⟨hready.valid, hready.width, hready.named⟩,
      Matrix.reads_texts s.dialect _, rfl⟩, ?_⟩
    rw [if_neg (status_ofRows _ splitter names _)]
    rw [foundColumns, ← hcolumns] at hfilled
    exact bind_eq_ok_iff.2 ⟨later, hfilled, rfl⟩

/-- Whether a rectangle is taken over depends neither on its order nor on its cells. -/
theorem adopt_of_adopt {rows cols : Nat} {order : Order} {cells : Array type.Carrier}
    (hok : adopt table rows cols order cells = .ok later) (order' : Order)
    {cells' : Array type.Carrier} (hsize : rows * cols ≤ cells'.size) :
    ∃ other, adopt table rows cols order' cells' = .ok other ∧ other.labels = later.labels := by
  have happend := mapError_eq_ok_iff.1 hok
  obtain ⟨u, hcomplete, happend⟩ := refuse_bind_eq_ok_iff.1 happend
  obtain ⟨v, hrows, happend⟩ := refuse_bind_eq_ok_iff.1 happend
  obtain ⟨dense, hdense, happend⟩ := refuse_bind_eq_ok_iff.1 happend
  obtain ⟨span, hspan, happend⟩ := refuse_bind_eq_ok_iff.1 happend
  obtain ⟨chains, hchains, happend⟩ := within_bind_eq_ok_iff.1 happend
  cases happend
  obtain ⟨dense', hdense', hcols⟩ : ∃ dense',
      Dense.make {} rows cols order' (.adopted cells') = .ok dense' ∧ dense'.cols = dense.cols :=
    Dense.make_of_make hdense order' hsize
  refine ⟨table.addColumns ⟨type, dense'⟩ chains, mapError_eq_ok_iff.2 ?_, ?_⟩
  · simp only [Table.appendColumns, hcomplete, hrows, hdense', hspan, hchains, refuse_ok, within_ok,
      ok_bind, pure_eq_ok]
  · rw [Table.addColumns, Table.addColumns, Block.cols, Block.cols, hcols]

theorem represents_adopt (h : table.Represents heap sheet) {rows cols : Nat} {order : Order}
    {cells : Array type.Carrier} (hok : adopt table rows cols order cells = .ok later) :
    later.Represents heap (sheet.appendColumns rows (Sheet.pieces rows cols order cells)) := by
  rw [adopt_eq heap] at hok
  exact h.appendColumns (by simp [Storage.ownership]) (mapError_eq_ok_iff.1 hok)

/-- The columns of groups are put one after the other. -/
theorem represents_adoptGroups {rows : Nat} {groups : List Group} (h : table.Represents heap sheet)
    (hok : groups.foldlM (adoptGroup rows) table = .ok later) :
    ∃ filled : Sheet, later.Represents heap filled ∧
      filled.columns = sheet.columns ++ groups.flatMap (Group.columns rows) := by
  induction groups generalizing table sheet with
  | nil =>
    cases hok
    exact ⟨sheet, h, (List.append_nil _).symm⟩
  | cons group groups ih =>
    rw [List.foldlM_cons] at hok
    obtain ⟨next, hnext, hok⟩ := bind_eq_ok_iff.1 hok
    obtain ⟨filled, hfilled, hcolumns⟩ := ih (represents_adopt h hnext) hok
    refine ⟨filled, hfilled, ?_⟩
    rw [hcolumns, Sheet.appendColumns, List.append_assoc, List.flatMap_cons, Group.columns]

theorem labelColumns_labels {seen headings : List String} {col : Nat}
    (hok : labelColumns seen headings col table = .ok later) :
    ∃ labels, later = { table with labels := labels } := by
  induction headings generalizing seen col table with
  | nil =>
    cases hok
    exact ⟨_, rfl⟩
  | cons name headings ih =>
    rw [labelColumns] at hok
    split at hok
    · exact ih hok
    · obtain ⟨labeled, hlabeled, hok⟩ := bind_eq_ok_iff.1 hok
      obtain ⟨u, -, hlabeled⟩ := bind_eq_ok_iff.1 (mapError_eq_ok_iff.1 hlabeled)
      obtain ⟨v, -, hlabeled⟩ := bind_eq_ok_iff.1 hlabeled
      cases hlabeled
      obtain ⟨labels, rfl⟩ := ih hok
      exact ⟨labels, rfl⟩

theorem represents_labelColumns (h : table.Represents heap sheet) {seen headings : List String}
    {col : Nat} (hok : labelColumns seen headings col table = .ok later) :
    later.Represents heap sheet := by
  have hlater := labelColumns_consistent h.consistent hok
  obtain ⟨labels, rfl⟩ := labelColumns_labels hok
  exact h.with_labels hlater

theorem labelColumns_congr {seen headings : List String} {col : Nat}
    (hok : labelColumns seen headings col table = .ok later) (hp : other.pending = table.pending)
    (hc : other.cols = table.cols) (hl : other.labels = table.labels) :
    ∃ labeled, labelColumns seen headings col other = .ok labeled ∧
      labeled.labels = later.labels := by
  induction headings generalizing seen col table other with
  | nil =>
    cases hok
    exact ⟨other, rfl, hl⟩
  | cons name headings ih =>
    rw [labelColumns] at hok ⊢
    split at hok
    next hskip =>
      rw [if_pos hskip]
      exact ih hok hp hc hl
    next hlabel =>
      rw [if_neg hlabel]
      obtain ⟨next, hnext, hok⟩ := bind_eq_ok_iff.1 hok
      obtain ⟨u, hcomplete, hnext⟩ := refuse_bind_eq_ok_iff.1 (mapError_eq_ok_iff.1 hnext)
      obtain ⟨v, hcol, hnext⟩ := refuse_bind_eq_ok_iff.1 hnext
      cases hnext
      have hlabeled : ofTable (other.label name col) =
          .ok { other with labels := table.labels.attach name col } := by
        apply mapError_eq_ok_iff.2
        rw [Table.label, Table.checkComplete, hp, ← Table.checkComplete, hcomplete, refuse_ok,
          ok_bind, Table.checkCol, hc, ← Table.checkCol, hcol, refuse_ok, ok_bind, hl, pure_eq_ok]
      rw [hlabeled, ok_bind]
      exact ih hok hp hc rfl

theorem pieces_arrange {values : List (List type.Carrier)} {width : Nat} (order : Order)
    (missing : type.Carrier) (hw : ∀ entries ∈ values, entries.length = width) :
    Sheet.pieces values.length width order
        (Matrix.arrange order values.length width missing values.flatten.toArray) =
      (List.range width).map fun col => ⟨type, Matrix.columnValues values missing col⟩ := by
  apply List.map_congr_left
  intro col hcol
  rw [Column.ofInput, Column.mk.injEq]
  refine ⟨rfl, heq_of_eq (List.ext_getElem (by simp [Matrix.columnValues]) ?_)⟩
  intro row hleft hright
  have hr : row < values.length := by simpa using hleft
  have hc : col < values[row].length := by
    rw [hw _ (List.getElem_mem hr)]
    exact List.mem_range.1 hcol
  have hcell : Matrix.CellAt values row col values[row][col] :=
    ⟨values[row], List.getElem?_eq_getElem hr, List.getElem?_eq_getElem hc⟩
  have hplace := Matrix.getElem?_arrange order missing hw hcell
  simp only [Matrix.columnValues, List.getElem_map, List.getElem_range,
    List.getD_eq_getElem _ _ hc, Array.getD_eq_getD_getElem?]
  cases order <;> exact congrArg (·.getD type.blank) hplace

section Values

variable {width : Nat} {values : List (List type.Carrier)}

def valueSheet (type : ScalarType) (width : Nat) (values : List (List type.Carrier)) : Sheet :=
  { rows := values.length
    columns := (List.range width).map fun col =>
      ⟨type, Matrix.columnValues values (FieldType.scalar type).missing col⟩ }

theorem represents_values (h : table.Represents heap {}) {order : Order}
    (hw : ∀ entries ∈ values, entries.length = width)
    (hok : adopt table values.length width order
      (Matrix.arrange order values.length width (FieldType.scalar type).missing
        values.flatten.toArray) = .ok later) :
    later.Represents heap (valueSheet type width values) := by
  have hlater := represents_adopt h hok
  rw [pieces_arrange order _ hw] at hlater
  exact hlater

theorem get_valueSheet {row col : Nat} (h : table.Represents heap (valueSheet type width values))
    (hr : row < values.length) (hc : col < width) :
    table.get heap type row col =
      .ok (values[row].getD col (FieldType.scalar type).missing) := by
  have hcolumn : (valueSheet type width values).columns[col]? = some
      ⟨type, Matrix.columnValues values (FieldType.scalar type).missing col⟩ := by
    simp [valueSheet, hc]
  refine h.get_eq_ok rfl hcolumn ?_
  rw [Matrix.columnValues, List.getElem?_map, List.getElem?_eq_getElem hr]
  rfl

end Values

/-! ## Tables of integers -/

def intColumns (cols : Nat) (values : List (List Int64)) : List (List Int64) :=
  (List.range cols).map (Matrix.columnValues values (FieldType.scalar .int).missing)

def intSheet (cols : Nat) (values : List (List Int64)) : Sheet :=
  { rows := values.length
    columns := (intColumns cols values).map fun column => ⟨.int, column⟩ }

section Ints

structure SameIntegers (s : Settings) : Prop where
  complete : s.warnForMissing = false
  integers : s.integersAsFloats = false
  thousands : ∀ byte, s.dialect.thousands = some byte → byte < 128

variable {values : List (List Int64)}

theorem length_intColumns {cols : Nat} : ∀ column ∈ intColumns cols values,
    column.length = values.length := by
  intro column hm
  obtain ⟨col, -, rfl⟩ := List.mem_map.1 hm
  exact List.length_map _

@[simp] theorem length_intSheet {cols : Nat} : (intSheet cols values).columns.length = cols := by
  simp [intSheet, intColumns]

theorem intSheet_eq (cols : Nat) (values : List (List Int64)) :
    intSheet cols values = valueSheet .int cols values := by
  rw [intSheet, intColumns, List.map_map]
  rfl

/-- A cell of a table of integers is the entry of its row. -/
theorem get_intSheet {cols row col : Nat} (h : table.Represents heap (intSheet cols values))
    (hr : row < values.length) (hc : col < cols) :
    table.get heap .int row col =
      .ok (values[row].getD col (FieldType.scalar .int).missing) := by
  rw [intSheet_eq] at h
  exact get_valueSheet h hr hc

theorem columnType_intSheet {cols col : Nat} (h : table.Represents heap (intSheet cols values))
    (hc : col < cols) : table.columnType col = .ok .int := by
  have hcol : col < (intSheet cols values).columns.length := by
    rw [length_intSheet]
    exact hc
  rw [h.columnType_eq (List.getElem?_eq_getElem hcol)]
  obtain ⟨column, -, hint⟩ := List.mem_map.1 (List.getElem_mem hcol)
  rw [← hint]

/-- Integers that are asked for fill the sheet of the rows that are read. -/
theorem represents_typed (h : table.Represents heap {}) {cols : Nat} {order : Order}
    (hw : ∀ entries ∈ values, entries.length = cols)
    (hok : @adopt .int table values.length cols order
      (Matrix.arrange order values.length cols (FieldType.scalar .int).missing
        values.flatten.toArray) = .ok later) :
    later.Represents heap (intSheet cols values) := by
  rw [intSheet_eq]
  exact represents_values h hw hok

theorem represents_ints (h : table.Represents heap {}) {cols : Nat}
    (hok : adoptGroup values.length table
      ⟨.int, (intColumns cols values).length, (intColumns cols values).flatten⟩ = .ok later) :
    later.Represents heap (intSheet cols values) := by
  have hlater := represents_adopt h hok
  rw [intSheet, ← columns_ints length_intColumns]
  exact hlater

theorem foundColumns_ints (hs : SameIntegers s)
    (hvalues : Matrix.Reads s.dialect (.scalar .int) (fields s splitter) values) :
    foundColumns s splitter =
      (intColumns (sources s splitter).length values).map fun column => .int column.toArray := by
  rw [intColumns, List.map_map]
  apply List.map_congr_left
  intro col hcol
  exact Matrix.ofCells_of_reads hs.thousands hs.integers hvalues (width_fields s splitter)
    (List.mem_range.1 hcol) _

theorem columnType_of_groups (h : table.Represents heap {})
    (hok : commitGroups (lines s splitter).length none (foundColumns s splitter) table =
      .ok later) :
    later.cols = (sources s splitter).length ∧
      ∀ col, ∀ column, (foundColumns s splitter)[col]? = some column →
        later.columnType col = .ok column.type := by
  have hsize : ∀ column ∈ foundColumns s splitter, column.size = (lines s splitter).length := by
    intro column hm
    obtain ⟨col, -, rfl⟩ := List.mem_map.1 hm
    rw [TypedColumn.size_ofCells, Matrix.columnTexts, List.length_map, length_fields]
  rw [commitGroups_eq] at hok
  obtain ⟨filled, hfilled, hcolumns⟩ := represents_adoptGroups h hok
  rw [columns_groupColumns hsize] at hcolumns
  have hfound : filled.columns = (foundColumns s splitter).map TypedColumn.toColumn := hcolumns
  constructor
  · rw [hfilled.cols, hfound, List.length_map, foundColumns, List.length_map, List.length_range]
  · intro col column hcol
    have hcolumn : filled.columns[col]? = some column.toColumn := by
      rw [hfound, List.getElem?_map, hcol]
      rfl
    exact hfilled.columnType_eq hcolumn

/-- The columns that rows of integers are found as go into the table as one group. -/
theorem commitGroups_ints (hs : SameIntegers s) (hsources : sources s splitter ≠ [])
    (hvalues : Matrix.Reads s.dialect (.scalar .int) (fields s splitter) values) (rows : Nat)
    (table : Table) :
    commitGroups rows none (foundColumns s splitter) table =
      adoptGroup rows table ⟨.int, (sources s splitter).length,
        (intColumns (sources s splitter).length values).flatten⟩ := by
  have hne : intColumns (sources s splitter).length values ≠ [] := by
    simpa [intColumns] using hsources
  rw [foundColumns_ints hs hvalues, commitGroups_eq, groupColumns_ints hne, List.foldlM_cons,
    intColumns, List.length_map, List.length_range]
  exact bind_pure _

theorem detected_of_typed (h : table.Represents heap {}) (hs : SameIntegers s)
    (hsplit : split s feed = .ok splitter) (hlines : lines s splitter ≠ [])
    (hsources : sources s splitter ≠ [])
    (hok : loadTyped .int table s feed = .ok (later, status, names)) :
    ∃ detected, loadDetected table s feed = .ok (detected, status, names) ∧
      detected.labels = later.labels ∧ ∃ values,
        later.Represents heap (intSheet (sources s splitter).length values) ∧
        detected.Represents heap (intSheet (sources s splitter).length values) := by
  obtain ⟨values, hready, hvalues, hadopt, rfl⟩ :=
    (loadTyped_eq_ok_iff hsplit hlines hs.complete).1 hok
  have hrows : values.length = (lines s splitter).length :=
    hvalues.length.trans (length_fields s splitter)
  have hwidth := hvalues.width (width_fields s splitter)
  have hlength : (intColumns (sources s splitter).length values).length =
      (sources s splitter).length := by
    rw [intColumns, List.length_map, List.length_range]
  have hsize : (lines s splitter).length * (sources s splitter).length ≤
      (intColumns (sources s splitter).length values).flatten.toArray.size := by
    rw [List.size_toArray, Matrix.length_flatten length_intColumns, hlength, hrows, Nat.mul_comm]
  obtain ⟨detected, hdetected, hlabels⟩ := adopt_of_adopt hadopt .columnMajor hsize
  refine ⟨detected, ?_, hlabels, values, ?_, ?_⟩
  · refine (loadDetected_eq_ok_iff hsplit hlines hs.complete).2 ⟨hready, ?_, rfl⟩
    rw [commitGroups_ints hs hsources hvalues, adoptGroup, hdetected]
  · rw [← hrows] at hadopt
    exact represents_typed h hwidth hadopt
  · rw [← hrows] at hdetected
    refine represents_ints h ?_
    rw [hlength]
    exact hdetected

theorem typed_of_detected (h : table.Represents heap {}) (hs : SameIntegers s)
    (hsplit : split s feed = .ok splitter) (hlines : lines s splitter ≠ [])
    (hsources : sources s splitter ≠ [])
    (hok : loadDetected table s feed = .ok (later, status, names))
    (htypes : ∀ col < later.cols, later.columnType col = .ok .int) :
    ∃ typed, loadTyped .int table s feed = .ok (typed, status, names) := by
  obtain ⟨hready, hfold, rfl⟩ := (loadDetected_eq_ok_iff hsplit hlines hs.complete).1 hok
  obtain ⟨hcols, hfound⟩ := columnType_of_groups h hfold
  obtain ⟨values, hvalues⟩ := Matrix.reads_of_columns hs.thousands hs.integers
    (width_fields s splitter) fun col hcol => by
      have htype := hfound col _ (by
        rw [foundColumns, List.getElem?_map, List.getElem?_range hcol]
        rfl)
      exact Except.ok.inj (htype.symm.trans (htypes col (hcols ▸ hcol)))
  have hrows : values.length = (lines s splitter).length :=
    hvalues.length.trans (length_fields s splitter)
  have hwidth := hvalues.width (width_fields s splitter)
  rw [commitGroups_ints hs hsources hvalues] at hfold
  have hsize : (lines s splitter).length * (sources s splitter).length ≤
      (Matrix.arrange s.order (lines s splitter).length (sources s splitter).length
        (FieldType.scalar .int).missing values.flatten.toArray).size := by
    rw [← hrows, Matrix.size_arrange s.order _ hwidth]
  obtain ⟨typed, htyped, -⟩ := adopt_of_adopt hfold s.order hsize
  exact ⟨typed, (loadTyped_eq_ok_iff hsplit hlines hs.complete).2
    ⟨values, hready, hvalues, htyped, rfl⟩⟩

end Ints

end Loading

open Reading Loading

variable {heap : Heap} {table : Table} {s : Settings} {splitter : Splitter} {feed : Feed}
  {status : Status} {sheet : Sheet}

theorem load_eq_ok_iff (h : table.Represents heap {}) {result : Table × Status} :
    load table s (.ok feed) = .ok result ↔
      ∃ filled names,
        (match s.loadType with
          | .fixed type => loadTyped type table s feed
          | .auto => loadDetected table s feed) = .ok (filled, result.2, names) ∧
        labelColumns [] (names.getD []) 0 filled = .ok result.1 := by
  have hempty : ¬ (!table.isEmpty) = true := by
    rw [Table.isEmpty, h.cols]
    simp
  have hfill : fill table s feed = (match s.loadType with
      | .fixed type => loadTyped type table s feed
      | .auto => loadDetected table s feed) >>= fun read => do
        return (← labelColumns [] (read.2.2.getD []) 0 read.1, read.2.1) := by
    unfold fill
    cases s.loadType <;> rfl
  unfold load
  dsimp only
  rw [if_neg hempty, mapError_eq_ok_iff, hfill, bind_eq_ok_iff]
  constructor
  · rintro ⟨⟨filled, status, names⟩, hfilled, hok⟩
    obtain ⟨labeled, hlabeled, hok⟩ := bind_eq_ok_iff.1 hok
    cases hok
    exact ⟨filled, names, hfilled, hlabeled⟩
  · rintro ⟨filled, names, hfilled, hlabeled⟩
    exact ⟨_, hfilled, bind_eq_ok_iff.2 ⟨_, hlabeled, rfl⟩⟩

/-- What is read as integers is found to be integers, and fills a table with the same sheet and the
same labels. -/
theorem load_auto_of_int (h : table.Represents heap {}) (hs : SameIntegers s)
    (hsplit : split s feed = .ok splitter) (hlines : lines s splitter ≠ [])
    (hsources : sources s splitter ≠ []) {typed : Table}
    (hok : load table { s with loadType := .fixed .int } (.ok feed) = .ok (typed, status)) :
    ∃ detected, load table { s with loadType := .auto } (.ok feed) = .ok (detected, status) ∧
      detected.labels = typed.labels ∧ ∃ values,
        typed.Represents heap (intSheet (sources s splitter).length values) ∧
        detected.Represents heap (intSheet (sources s splitter).length values) := by
  obtain ⟨filled, names, hfilled, hlabeled⟩ := (load_eq_ok_iff h).1 hok
  obtain ⟨found, hfound, hlabels, values, hfilledSheet, hfoundSheet⟩ :=
    detected_of_typed h hs hsplit hlines hsources hfilled
  have hpending : found.pending = filled.pending := by
    rw [hfoundSheet.pending_eq_none rfl, hfilledSheet.pending_eq_none rfl]
  obtain ⟨detected, hdetected, hsame⟩ :=
    labelColumns_congr hlabeled hpending (hfilledSheet.cols_congr hfoundSheet) hlabels
  exact ⟨detected, (load_eq_ok_iff h).2 ⟨found, names, hfound, hdetected⟩, hsame, values,
    represents_labelColumns hfilledSheet hlabeled, represents_labelColumns hfoundSheet hdetected⟩

theorem load_int_of_auto (h : table.Represents heap {}) (hs : SameIntegers s)
    (hsplit : split s feed = .ok splitter) (hlines : lines s splitter ≠ [])
    (hsources : sources s splitter ≠ []) {detected : Table}
    (hok : load table { s with loadType := .auto } (.ok feed) = .ok (detected, status))
    (htypes : ∀ col < detected.cols, detected.columnType col = .ok .int) :
    ∃ typed, load table { s with loadType := .fixed .int } (.ok feed) = .ok (typed, status) := by
  obtain ⟨found, names, hfound, hlabeled⟩ := (load_eq_ok_iff h).1 hok
  have htypesFound : ∀ col < found.cols, found.columnType col = .ok .int := by
    obtain ⟨labels, hdetected⟩ := labelColumns_labels hlabeled
    dsimp only at hdetected
    subst hdetected
    exact htypes
  obtain ⟨filled, hfilled⟩ := typed_of_detected h hs hsplit hlines hsources hfound htypesFound
  obtain ⟨found', hfound', hlabels, values, hfilledSheet, hfoundSheet⟩ :=
    detected_of_typed h hs hsplit hlines hsources hfilled
  obtain rfl : found' = found :=
    congrArg Prod.fst (Except.ok.inj (hfound'.symm.trans hfound))
  have hpending : filled.pending = found'.pending := by
    rw [hfoundSheet.pending_eq_none rfl, hfilledSheet.pending_eq_none rfl]
  obtain ⟨typed, htyped, -⟩ :=
    labelColumns_congr hlabeled hpending (hfoundSheet.cols_congr hfilledSheet) hlabels.symm
  exact ⟨typed, (load_eq_ok_iff h).2 ⟨filled, names, hfilled, htyped⟩⟩

/-- A load of integers succeeds just if the one that finds the types finds nothing but integers.
Then both fill the table with the same cells and labels, and report the same status. -/
theorem load_ints_alike (h : table.Represents heap {}) (hs : SameIntegers s)
    (hsplit : split s feed = .ok splitter) (hlines : lines s splitter ≠ [])
    (hsources : sources s splitter ≠ []) :
    ((∃ typed, load table { s with loadType := .fixed .int } (.ok feed) = .ok typed) ↔
      ∃ detected, load table { s with loadType := .auto } (.ok feed) = .ok detected ∧
        ∀ col < detected.1.cols, detected.1.columnType col = .ok .int) ∧
    ∀ typed detected, load table { s with loadType := .fixed .int } (.ok feed) = .ok typed →
      load table { s with loadType := .auto } (.ok feed) = .ok detected →
      detected.1.rows = typed.1.rows ∧ detected.1.cols = typed.1.cols ∧
      (∀ row < typed.1.rows, ∀ col < typed.1.cols,
        ∃ value, typed.1.get heap .int row col = .ok value) ∧
      (∀ type row col, detected.1.get heap type row col = typed.1.get heap type row col) ∧
      detected.1.labels = typed.1.labels ∧ detected.2 = typed.2 := by
  constructor
  · constructor
    · rintro ⟨⟨typed, status⟩, hok⟩
      obtain ⟨detected, hdetected, -, values, -, hsheet⟩ :=
        load_auto_of_int h hs hsplit hlines hsources hok
      refine ⟨(detected, status), hdetected, fun col hcol => ?_⟩
      rw [hsheet.cols, length_intSheet] at hcol
      exact columnType_intSheet hsheet hcol
    · rintro ⟨⟨detected, status⟩, hok, htypes⟩
      obtain ⟨typed, htyped⟩ := load_int_of_auto h hs hsplit hlines hsources hok htypes
      exact ⟨(typed, status), htyped⟩
  · rintro ⟨typed, status⟩ ⟨detected, status'⟩ htyped hdetected
    obtain ⟨found, hfound, hlabels, values, hsheet, hsheet'⟩ :=
      load_auto_of_int h hs hsplit hlines hsources htyped
    obtain ⟨rfl, rfl⟩ := Prod.mk.inj (Except.ok.inj (hfound.symm.trans hdetected))
    refine ⟨hsheet.rows_congr hsheet' rfl, hsheet.cols_congr hsheet', ?_,
      hsheet.get_congr hsheet' rfl, hlabels, rfl⟩
    intro row hrow col hcol
    rw [hsheet.rows_eq (hsheet.pending_eq_none rfl)] at hrow
    rw [hsheet.cols, length_intSheet] at hcol
    exact ⟨_, get_intSheet hsheet hrow hcol⟩

/-- Two rows of integers with a sign and with blanks, read by columns and in small pieces. -/
theorem load_ints_alike_padded :
    let s : Settings := { order := .columnMajor, chunkSize := 3 }
    let feed : Feed := .memory [49, 44, 45, 50, 10, 32, 51, 32, 44, 52, 10]
    ∃ typed detected, load .empty { s with loadType := .fixed .int } (.ok feed) = .ok typed ∧
      load .empty { s with loadType := .auto } (.ok feed) = .ok detected ∧
      (∀ col < detected.1.cols, detected.1.columnType col = .ok .int) ∧
      detected.1.rows = typed.1.rows ∧ detected.1.cols = typed.1.cols ∧
      (∀ row < typed.1.rows, ∀ col < typed.1.cols,
        ∃ value, typed.1.get {} .int row col = .ok value) ∧
      (∀ type row col, detected.1.get {} type row col = typed.1.get {} type row col) ∧
      detected.1.labels = typed.1.labels ∧ detected.2 = typed.2 := by
  intro s feed
  have hsplit : split s feed = .ok _ := split_eq_ok (by decide +kernel)
  have hs : SameIntegers s := ⟨rfl, rfl, by simp [s]⟩
  obtain ⟨hsucceeds, hsame⟩ := load_ints_alike (Table.Represents.empty {}) hs hsplit
    (by decide +kernel) (by decide +kernel)
  have hok : (load .empty { s with loadType := .fixed .int } (.ok feed)).isOk = true := by
    decide +kernel
  cases htyped : load .empty { s with loadType := .fixed .int } (.ok feed) with
  | error halted =>
    rw [htyped] at hok
    cases hok
  | ok typed =>
    obtain ⟨detected, hdetected, htypes⟩ := hsucceeds.1 ⟨typed, htyped⟩
    exact ⟨typed, detected, rfl, hdetected, htypes, hsame typed detected htyped hdetected⟩

end TypedTable.Csv
